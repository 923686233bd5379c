/-
  OpenApiTs.Proofs.Generation.Trace

  What a run asks of its services. It loads, writes and formats at most once each and in this order,
  and asks for the next only when all stages before it succeeded, so a run that fails leaves the
  output of an earlier one alone. Settings are checked twice, before loading and before generating,
  by the same conditions; a run whose services never complain about the options can fail for them
  only before any of these is asked.
-/
import OpenApiTs.Generation.Run
import OpenApiTs.Proofs.Outcome

namespace OpenApiTs

variable {α β : Type} {compiler : Schema.Compiler} {definitions : Definitions} {cwd : String}
  {options : Options} {loaded : String → Except Failure Json}
  {written : String → String → List OutputFile → Except Failure Unit}

/-! ## Requests -/

/-- The services that a run can ask. -/
inductive Service where
  | loader
  | writer
  | formatter
deriving DecidableEq, Repr

/-- The service that a request is for. -/
def Request.service : Request → Service
  | .load _ => .loader
  | .write _ _ _ => .writer
  | .format _ _ => .formatter

namespace Stages

/-- What is asked of the loader for a source: a document in memory needs none. -/
def loading : Option Source → List Request
  | some (.path path) => [.load path]
  | some (.url url) => [.load url]
  | some (.document _) => []
  | none => []

/-- The document of the options, by the answers of the loader. -/
def documentFrom (loaded : String → Except Failure Json) (options : Options) :
    Except Failure Json :=
  match options.source with
  | some (.document document) => .ok document
  | some (.path path) => loaded path
  | some (.url url) => loaded url
  | none => .error Options.Fault.noSource.failure

/-- What the stages before writing come to: options validated, a document loaded and upgraded, and
    files generated from it. -/
def prepared (stages : Stages) (loaded : String → Except Failure Json) (options : Options) :
    Except Failure Generation := do
  options.validate
  let document ← documentFrom loaded options
  stages.produce options document

/-- What is asked once files are generated: to write them, and to format what was written. -/
def publishing (written : String → String → List OutputFile → Except Failure Unit) :
    Except Failure Generation → List Request
  | .error _ => []
  | .ok generation =>
    let settings := generation.settings
    .write settings.outputDir settings.bannerComment generation.files ::
      match written settings.outputDir settings.bannerComment generation.files with
      | .error _ => []
      | .ok () => [.format settings.outputDir settings.prettierConfig]

/-- All that a run asks, in order. -/
def asked (stages : Stages) (loaded : String → Except Failure Json)
    (written : String → String → List OutputFile → Except Failure Unit) (options : Options) :
    List Request :=
  match options.validate with
  | .error _ => []
  | .ok () => loading options.source ++ publishing written (stages.prepared loaded options)

/-- What a run reports: the first failure of a stage, or a summary of what was written. -/
def reported (stages : Stages) (loaded : String → Except Failure Json)
    (written : String → String → List OutputFile → Except Failure Unit) (options : Options) :
    Except Failure Summary := do
  let generation ← stages.prepared loaded options
  let settings := generation.settings
  written settings.outputDir settings.bannerComment generation.files
  return ⟨settings.outputDir, generation.files.length, generation.operations⟩

variable {stages : Stages} {generation : Generation} {summary : Summary} {failure : Failure}
  {log : List Request}

/-! ## Stages in order -/

/-- Whether all stages before writing succeed, the last with this generation. -/
def Prepares (stages : Stages) (loaded : String → Except Failure Json) (options : Options)
    (generation : Generation) : Prop :=
  options.validate = .ok () ∧
    ∃ document upgraded,
      documentFrom loaded options = .ok document ∧
      stages.upgrade document = .ok upgraded ∧
      stages.generate upgraded options = .ok generation

/-- The failure of the first stage that fails. -/
inductive FailsFirst (stages : Stages) (loaded : String → Except Failure Json)
    (written : String → String → List OutputFile → Except Failure Unit) (options : Options) :
    Failure → Prop where
  | options {failure : Failure} (h_options : options.validate = .error failure) :
      FailsFirst stages loaded written options failure
  | loading {failure : Failure} (h_valid : options.validate = .ok ())
      (h_document : documentFrom loaded options = .error failure) :
      FailsFirst stages loaded written options failure
  | upgrading {document : Json} {failure : Failure} (h_valid : options.validate = .ok ())
      (h_document : documentFrom loaded options = .ok document)
      (h_upgrade : stages.upgrade document = .error failure) :
      FailsFirst stages loaded written options failure
  | generating {document upgraded : Json} {failure : Failure}
      (h_valid : options.validate = .ok ())
      (h_document : documentFrom loaded options = .ok document)
      (h_upgrade : stages.upgrade document = .ok upgraded)
      (h_generate : stages.generate upgraded options = .error failure) :
      FailsFirst stages loaded written options failure
  | writing {generation : Generation} {failure : Failure}
      (h_prepares : Prepares stages loaded options generation)
      (h_written : written generation.settings.outputDir generation.settings.bannerComment
        generation.files = .error failure) :
      FailsFirst stages loaded written options failure

theorem prepared_eq_ok_iff :
    stages.prepared loaded options = .ok generation ↔ Prepares stages loaded options generation := by
  unfold prepared produce Prepares
  simp only [Outcome.bind_eq_ok_iff]
  constructor
  · rintro ⟨_, h_valid, document, h_document, upgraded, h_upgraded, h_generation⟩
    exact ⟨h_valid, document, upgraded, h_document, h_upgraded, h_generation⟩
  · rintro ⟨h_valid, document, upgraded, h_document, h_upgraded, h_generation⟩
    exact ⟨(), h_valid, document, h_document, upgraded, h_upgraded, h_generation⟩

theorem reported_eq_ok_iff :
    stages.reported loaded written options = .ok summary ↔
      ∃ generation, Prepares stages loaded options generation ∧
        written generation.settings.outputDir generation.settings.bannerComment
          generation.files = .ok () ∧
        summary =
          ⟨generation.settings.outputDir, generation.files.length, generation.operations⟩ := by
  unfold reported
  simp only [Outcome.bind_eq_ok_iff, prepared_eq_ok_iff]
  constructor
  · rintro ⟨generation, h_prepares, _, h_written, h_summary⟩
    exact ⟨generation, h_prepares, h_written, (Except.ok.inj h_summary).symm⟩
  · rintro ⟨generation, h_prepares, h_written, rfl⟩
    exact ⟨generation, h_prepares, (), h_written, rfl⟩

/-- A run fails in the first stage that fails, with its failure. -/
theorem reported_eq_error_iff :
    stages.reported loaded written options = .error failure ↔
      FailsFirst stages loaded written options failure := by
  unfold reported prepared produce
  simp only [Outcome.bind_eq_error_iff]
  constructor
  · rintro (h_prepared | ⟨generation, h_prepared, h_written | ⟨_, _, h_done⟩⟩)
    · -- one case for each stage, in their order
      rcases h_prepared with h_options | ⟨_, h_valid, h_document | ⟨document, h_document,
        h_upgrade | ⟨upgraded, h_upgrade, h_generate⟩⟩⟩
      · exact .options h_options
      · exact .loading h_valid h_document
      · exact .upgrading h_valid h_document h_upgrade
      · exact .generating h_valid h_document h_upgrade h_generate
    · exact .writing (prepared_eq_ok_iff.mp h_prepared) h_written
    · cases h_done
  · intro h_fails
    cases h_fails with
    | options h_options => exact .inl (.inl h_options)
    | loading h_valid h_document => exact .inl (.inr ⟨(), h_valid, .inl h_document⟩)
    | upgrading h_valid h_document h_upgrade =>
      exact .inl (.inr ⟨(), h_valid, .inr ⟨_, h_document, .inl h_upgrade⟩⟩)
    | generating h_valid h_document h_upgrade h_generate =>
      exact .inl (.inr ⟨(), h_valid, .inr ⟨_, h_document, .inr ⟨_, h_upgrade, h_generate⟩⟩⟩)
    | writing h_prepares h_written =>
      exact .inr ⟨_, prepared_eq_ok_iff.mpr h_prepares, .inl h_written⟩

/-! ## Runs on recording services -/

/-- Loading asks the loader for the source, unless the document is given. -/
theorem loadDocument_recording (log : List Request) :
    (loadDocument (Services.recording loaded written) options).run log =
      (documentFrom loaded options, log ++ loading options.source) := by
  unfold loadDocument documentFrom
  split
  · next h_source => rw [h_source, loading, List.append_nil]; rfl
  · next h_source => rw [h_source, loading]; rfl
  · next h_source => rw [h_source, loading]; rfl
  · next h_source => rw [h_source, loading, List.append_nil]; rfl

theorem write_recording (directory banner : String) (files : List OutputFile)
    (log : List Request) :
    ((Services.recording loaded written).write directory banner files).run log =
      (written directory banner files, log ++ [.write directory banner files]) := rfl

/-- Files are written, and formatted if that succeeded. -/
theorem publish_recording (generation : Generation) (log : List Request) :
    (publish (Services.recording loaded written) generation).run log =
      ((do
        written generation.settings.outputDir generation.settings.bannerComment generation.files
        return ⟨generation.settings.outputDir, generation.files.length, generation.operations⟩),
      log ++ publishing written (.ok generation)) := by
  simp only [publish, publishing, StateT.run_bind, write_recording]
  cases written generation.settings.outputDir generation.settings.bannerComment generation.files with
  | error failure => rfl
  | ok done => exact congrArg (Prod.mk _) (List.append_assoc log [_] [_])

/-- A run reports its first failure or its summary, and leaves what it asked behind the record. -/
theorem run_recording (log : List Request) :
    (stages.run (Services.recording loaded written) options).run log =
      (stages.reported loaded written options, log ++ stages.asked loaded written options) := by
  unfold run asked reported prepared
  cases options.validate with
  | error failure =>
    rw [List.append_nil]
    rfl
  | ok done =>
    cases done
    simp only [StateT.run_bind, loadDocument_recording, ← List.append_assoc]
    cases documentFrom loaded options with
    | error failure => exact congrArg (Prod.mk _) (List.append_nil _).symm
    | ok document =>
      -- upgrading and generating ask nothing
      change (match stages.produce options document with
        | .error failure => (pure (.error failure) : StateM (List Request) (Except Failure Summary))
        | .ok generation => publish (Services.recording loaded written) generation).run
          (log ++ loading options.source) =
        (stages.produce options document >>= _,
          log ++ loading options.source ++ publishing written (stages.produce options document))
      cases stages.produce options document with
      | error failure => exact congrArg (Prod.mk _) (List.append_nil _).symm
      | ok generation => exact publish_recording generation _

/-! ## What is asked -/

theorem services_loading (source : Option Source) :
    ((loading source).map Request.service).Sublist [.loader] := by
  cases source with
  | none => exact List.nil_sublist _
  | some source =>
    cases source with
    | path path => exact List.Sublist.refl _
    | url url => exact List.Sublist.refl _
    | document document => exact List.nil_sublist _

theorem services_publishing (outcome : Except Failure Generation) :
    ((publishing written outcome).map Request.service).Sublist [.writer, .formatter] := by
  cases outcome with
  | error failure => exact List.nil_sublist _
  | ok generation =>
    refine List.Sublist.cons_cons _ ?_
    split
    · exact List.nil_sublist _
    · exact List.Sublist.refl _

/-- Every service is asked at most once, the loader first and the formatter last. -/
theorem services_asked :
    ((stages.asked loaded written options).map Request.service).Sublist
      [.loader, .writer, .formatter] := by
  unfold asked
  split
  · exact List.nil_sublist _
  · rw [List.map_append]
    exact (services_loading _).append (services_publishing _)

/-- The loader is asked exactly when the options are valid and name a source. -/
theorem load_mem_asked {source : String} :
    .load source ∈ stages.asked loaded written options ↔
      options.validate = .ok () ∧
        (options.source = some (.path source) ∨ options.source = some (.url source)) := by
  -- the writer and the formatter are other services
  have h_publishing : .load source ∉ publishing written (stages.prepared loaded options) := by
    intro h_mem
    have h_service := List.mem_map_of_mem (f := Request.service) h_mem
    exact absurd ((services_publishing _).subset h_service) (by simp [Request.service])
  unfold asked
  split
  · next h_invalid => simp [h_invalid]
  · next h_valid =>
    rw [List.mem_append, or_iff_left h_publishing, h_valid]
    unfold loading
    split <;> simp_all [eq_comm]

theorem write_mem_publishing {directory banner : String} {files : List OutputFile}
    {outcome : Except Failure Generation} :
    .write directory banner files ∈ publishing written outcome ↔
      ∃ generation, outcome = .ok generation ∧ directory = generation.settings.outputDir ∧
        banner = generation.settings.bannerComment ∧ files = generation.files := by
  cases outcome with
  | error failure => simp [publishing]
  | ok generation =>
    cases h_written : written generation.settings.outputDir generation.settings.bannerComment
        generation.files with
    | error failure => simp [publishing, h_written]
    | ok done => simp [publishing, h_written]

theorem format_mem_publishing {directory : String} {config : Option String}
    {outcome : Except Failure Generation} :
    .format directory config ∈ publishing written outcome ↔
      ∃ generation, outcome = .ok generation ∧
        written generation.settings.outputDir generation.settings.bannerComment
          generation.files = .ok () ∧
        directory = generation.settings.outputDir ∧
        config = generation.settings.prettierConfig := by
  cases outcome with
  | error failure => simp [publishing]
  | ok generation =>
    cases h_written : written generation.settings.outputDir generation.settings.bannerComment
        generation.files with
    | error failure => simp [publishing, h_written]
    | ok done => simp [publishing, h_written]

/-- What a request for the writer or the formatter says is settled by what is generated. -/
theorem mem_asked_iff {request : Request} (h_service : request.service ≠ .loader) :
    request ∈ stages.asked loaded written options ↔
      request ∈ publishing written (stages.prepared loaded options) := by
  have h_loading : request ∉ loading options.source := fun h_mem =>
    h_service (List.mem_singleton.mp
      ((services_loading _).subset (List.mem_map_of_mem (f := Request.service) h_mem)))
  unfold asked
  split
  · next failure h_invalid =>
    have h_prepared : stages.prepared loaded options = .error failure := by
      rw [prepared, h_invalid]
      rfl
    simp [h_prepared, publishing]
  · rw [List.mem_append, or_iff_right h_loading]

end Stages

/-! ## Complaints about the options -/

/-- Whether an outcome is no complaint about the options. -/
def Uncomplaining (outcome : Except Failure α) : Prop :=
  ∀ reason, outcome ≠ .error (.config reason)

namespace Uncomplaining

theorem ok (value : α) : Uncomplaining (.ok value : Except Failure α) := nofun

theorem bind {first : Except Failure α} {next : α → Except Failure β}
    (h_first : Uncomplaining first) (h_next : ∀ value, Uncomplaining (next value)) :
    Uncomplaining (first >>= next) := by
  intro reason h_error
  rcases Outcome.bind_eq_error_iff.mp h_error with h_error | ⟨value, -, h_error⟩
  · exact h_first reason h_error
  · exact h_next value reason h_error

theorem mapM {f : α → Except Failure β} {items : List α}
    (h_each : ∀ item, Uncomplaining (f item)) : Uncomplaining (items.mapM f) := by
  induction items with
  | nil => exact ok []
  | cons item items ih =>
    rw [List.mapM_cons]
    exact bind (h_each item) fun result => bind ih fun results => ok (result :: results)

end Uncomplaining

/-- A rule may complain about anything: what it says is wrapped in the name of its operation. -/
theorem Resolver.resolveAll_uncomplaining (resolver : Resolver) (operations : List Operation) :
    Uncomplaining (resolver.resolveAll operations) := by
  refine Uncomplaining.mapM fun operation reason h_error => ?_
  unfold Resolver.resolveNamed at h_error
  cases h_own : resolver.resolve operation with
  | error failure =>
    rw [h_own] at h_error
    cases h_error
  | ok endpoint =>
    rw [h_own] at h_error
    cases h_error

theorem Output.files_uncomplaining {settings : Settings} {endpoints : List Endpoint}
    (h_compiler : ∀ schema name, Uncomplaining (compiler schema name definitions)) :
    Uncomplaining (Output.files compiler definitions settings endpoints) := by
  have h_clean : ∀ schema name, Uncomplaining (compiler.clean schema name definitions) := by
    intro schema name reason h_error
    unfold Schema.Compiler.clean at h_error
    cases h_own : compiler schema name definitions with
    | error failure =>
      rw [h_own] at h_error
      exact h_compiler schema name reason (h_own.trans h_error)
    | ok text =>
      rw [h_own] at h_error
      cases h_error
  have h_shared : Uncomplaining (Output.sharedFile? compiler definitions) := by
    refine Uncomplaining.bind (Uncomplaining.mapM fun entry => h_clean entry.2 entry.1) ?_
    intro compiled reason h_error
    split at h_error
    · cases h_error
    · split at h_error <;> cases h_error
  exact Uncomplaining.bind h_shared fun shared => Uncomplaining.ok _

/-- Options that passed the check before loading pass the one before generating. -/
theorem Options.exists_settings (compiler : Schema.Compiler) (definitions : Definitions)
    (cwd : String) (h_valid : options.validate = .ok ()) :
    ∃ settings, options.settings compiler definitions cwd = .ok settings := by
  have h_fault : options.outputFault? = none := by
    unfold Options.validate Options.fault? at h_valid
    cases h_source : options.source with
    | none =>
      rw [h_source] at h_valid
      cases h_valid
    | some source =>
      rw [h_source] at h_valid
      cases h_output : options.outputFault? with
      | none => rfl
      | some fault =>
        simp only [h_output] at h_valid
        cases h_valid
  unfold Options.settings
  rw [h_fault]
  exact ⟨_, rfl⟩

/-- With valid options no stage behind them complains about the configuration. -/
theorem Generation.ofDocument_uncomplaining {document : Json}
    (h_valid : options.validate = .ok ())
    (h_compiler : ∀ schema name definitions, Uncomplaining (compiler schema name definitions)) :
    Uncomplaining (Generation.ofDocument compiler cwd document options) := by
  unfold Generation.ofDocument
  obtain ⟨settings, h_settings⟩ := Options.exists_settings compiler
    (Definitions.ofDocument (Reference.normalize document)) cwd h_valid
  refine Uncomplaining.bind ?_ fun settings => ?_
  · rw [h_settings]
    exact Uncomplaining.ok settings
  · refine Uncomplaining.bind (Resolver.resolveAll_uncomplaining _ _) fun endpoints => ?_
    refine Uncomplaining.bind (Output.files_uncomplaining fun schema name => ?_) fun files => ?_
    · exact h_compiler schema name _
    · exact Uncomplaining.ok _

namespace Stages

variable {stages : Stages}

/-- The stages of the generator, on services that do not complain about the options, complain about
    them only where these are checked before anything else. -/
theorem validate_of_complaint {upgrade : Json → Except Failure Json} {reason : String}
    (h_compiler : ∀ schema name definitions, Uncomplaining (compiler schema name definitions))
    (h_upgrade : ∀ document, Uncomplaining (upgrade document))
    (h_loaded : ∀ source, Uncomplaining (loaded source))
    (h_written : ∀ directory banner files, Uncomplaining (written directory banner files))
    (h_complaint : reported ⟨upgrade, Generation.ofDocument compiler cwd⟩ loaded written options =
      .error (.config reason)) :
    options.validate = .error (.config reason) := by
  cases reported_eq_error_iff.mp h_complaint with
  | options h_options => exact h_options
  | loading h_valid h_document =>
    -- options without a source are not valid
    unfold documentFrom at h_document
    split at h_document
    · cases h_document
    · exact absurd h_document (h_loaded _ reason)
    · exact absurd h_document (h_loaded _ reason)
    · next h_source =>
      rw [Options.validate, Options.fault?, h_source] at h_valid
      cases h_valid
  | upgrading h_valid h_document h_fails => exact absurd h_fails (h_upgrade _ reason)
  | generating h_valid h_document h_upgraded h_fails =>
    exact absurd h_fails (Generation.ofDocument_uncomplaining h_valid h_compiler reason)
  | writing h_prepares h_fails => exact absurd h_fails (h_written _ _ _ reason)

/-! ## Runs -/

/-- What a run asks and what it reports, whatever its stages and services answer. The services are
    asked at most once each and in order: the loader when the options are valid and name a path or a
    URL, the writer when everything before it succeeded, with what was generated, and the formatter
    when writing succeeded. The report is a summary of what was written or the first failure. And
    where only the check of the options complains about them, a complaint is the answer before any
    stage or service is reached. -/
theorem services_asked_in_order (stages : Stages) (loaded : String → Except Failure Json)
    (written : String → String → List OutputFile → Except Failure Unit) (options : Options)
    (log : List Request) :
    ∃ asked reported,
      (stages.run (Services.recording loaded written) options).run log =
        (reported, log ++ asked) ∧
      (asked.map Request.service).Sublist [.loader, .writer, .formatter] ∧
      (∀ source, .load source ∈ asked ↔
        options.validate = .ok () ∧
          (options.source = some (.path source) ∨ options.source = some (.url source))) ∧
      (∀ directory banner files, .write directory banner files ∈ asked ↔
        ∃ generation, Prepares stages loaded options generation ∧
          directory = generation.settings.outputDir ∧
          banner = generation.settings.bannerComment ∧ files = generation.files) ∧
      (∀ directory config, .format directory config ∈ asked ↔
        ∃ generation, Prepares stages loaded options generation ∧
          written generation.settings.outputDir generation.settings.bannerComment
            generation.files = .ok () ∧
          directory = generation.settings.outputDir ∧
          config = generation.settings.prettierConfig) ∧
      (∀ summary, reported = .ok summary ↔
        ∃ generation, Prepares stages loaded options generation ∧
          written generation.settings.outputDir generation.settings.bannerComment
            generation.files = .ok () ∧
          summary =
            ⟨generation.settings.outputDir, generation.files.length, generation.operations⟩) ∧
      (∀ failure, reported = .error failure ↔
        FailsFirst stages loaded written options failure) ∧
      (∀ compiler cwd reason, stages.generate = Generation.ofDocument compiler cwd →
        (∀ schema name definitions, Uncomplaining (compiler schema name definitions)) →
        (∀ document, Uncomplaining (stages.upgrade document)) →
        (∀ source, Uncomplaining (loaded source)) →
        (∀ directory banner files, Uncomplaining (written directory banner files)) →
        reported = .error (.config reason) →
        asked = [] ∧
          ∀ (m : Type → Type) [Monad m] (others : Stages) (services : Services m),
            others.run services options = pure (.error (.config reason))) := by
  refine ⟨stages.asked loaded written options, stages.reported loaded written options,
    run_recording log, services_asked, fun source => load_mem_asked, ?_, ?_,
    fun summary => reported_eq_ok_iff, fun failure => reported_eq_error_iff, ?_⟩
  · intro directory banner files
    rw [mem_asked_iff (by simp [Request.service]), write_mem_publishing]
    simp only [prepared_eq_ok_iff]
  · intro directory config
    rw [mem_asked_iff (by simp [Request.service]), format_mem_publishing]
    simp only [prepared_eq_ok_iff]
  · intro compiler cwd reason h_generate h_compiler h_upgrade h_loaded h_written h_complaint
    have h_invalid : options.validate = .error (.config reason) := by
      obtain ⟨upgrade, generate⟩ := stages
      obtain rfl : generate = _ := h_generate
      exact validate_of_complaint h_compiler h_upgrade h_loaded h_written h_complaint
    constructor
    · rw [asked, h_invalid]
    · intro m _ others services
      rw [run, h_invalid]

theorem typeScript_uncomplaining (schema : Json) (name : String) (definitions : Definitions) :
    Uncomplaining (Schema.typeScript schema name definitions) := by
  intro reason h_error
  unfold Schema.typeScript at h_error
  split at h_error <;> cases h_error

/-- Options whose import statement does not import `request`. -/
def axiosOptions : Options where
  source := some (.path "api.json")
  outputDir := some "out"
  axiosFilePath := none
  requestTemplate := some "import axios from 'axios'"
  successResponseTemplate := none
  bannerComment := none
  prettierConfig := none
  convention := .plain
  header := false
  cookie := false
  overrides := Overrides.none

theorem axios_asks_nothing :
    ∃ reason,
      ((Stages.mk Except.ok (Generation.ofDocument Schema.typeScript "/")).run
        (Services.recording (fun _ => .ok .null) fun _ _ _ => .ok ()) axiosOptions).run [] =
          (.error (.config reason), []) := by
  obtain ⟨asked, reported, h_run, -, -, -, -, -, -, h_complaint⟩ :=
    services_asked_in_order (Stages.mk Except.ok (Generation.ofDocument Schema.typeScript "/"))
      (fun _ => .ok .null) (fun _ _ _ => .ok ()) axiosOptions []
  have h_reported : reported =
      .error (.config (Options.Fault.requestNotImported "import axios from 'axios'").message) :=
    (congrArg Prod.fst h_run).symm.trans rfl
  obtain ⟨rfl, -⟩ := h_complaint Schema.typeScript "/" _ rfl typeScript_uncomplaining
    (fun _ => Uncomplaining.ok _) (fun _ => Uncomplaining.ok _)
    (fun _ _ _ => Uncomplaining.ok _) h_reported
  exact ⟨_, h_run.trans (by rw [h_reported, List.append_nil])⟩

end Stages

end OpenApiTs
