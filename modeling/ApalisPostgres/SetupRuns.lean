/-
What installing the schema guarantees.  A `setup` that commits has run exactly
the bodies the journal did not account for, in the order of their versions; any
number of them, interleaved in any way and cut off at any point, leave what one
of them leaves alone.
-/
import ApalisPostgres.SchemaSetup
import Mathlib.Data.String.Basic

namespace ApalisPostgres

open RowStore

variable {Catalog : Type} (C : CatalogModel Catalog)

/-- The history `setup` adopts for an installation: none where the journal
already has one, none for an empty or a legacy schema, and the fixed versions of
the two catalogs it knows. -/
inductive Recognizes (db : Installation Catalog) : List String → Prop where
  | recorded (happlied : db.applied ≠ []) : Recognizes db []
  | fresh (happlied : db.applied = []) (hfree : C.occupied db.catalog = false) :
      Recognizes db []
  | final (happlied : db.applied = []) (hoccupied : C.occupied db.catalog = true)
      (hfinal : C.problems .adoptable db.catalog = []) :
      Recognizes db currentFinalAdoptVersions
  | baseline (happlied : db.applied = [])
      (hoccupied : C.occupied db.catalog = true)
      (hfinal : C.problems .adoptable db.catalog ≠ [])
      (hbaseline : C.problems .releasedBaseline db.catalog = []) :
      Recognizes db baselineVersions
  | legacy (happlied : db.applied = [])
      (hoccupied : C.occupied db.catalog = true)
      (hfinal : C.problems .adoptable db.catalog ≠ [])
      (hbaseline : C.problems .releasedBaseline db.catalog ≠ [])
      (hlegacy : C.problems .legacy db.catalog = [])
      (hshape : C.legacyShape db.catalog = true) :
      Recognizes db []

/-- An existing schema without history that is none of the known ones. -/
structure Unrecognized (db : Installation Catalog) : Prop where
  applied : db.applied = []
  occupied : C.occupied db.catalog = true
  final : C.problems .adoptable db.catalog ≠ []
  baseline : C.problems .releasedBaseline db.catalog ≠ []
  legacy : C.problems .legacy db.catalog = [] → C.legacyShape db.catalog = false

/-- The bodies of the versions ran one after the other, at some instants. -/
inductive Upgrades : List String → Catalog → Catalog → Prop where
  | nil (catalog : Catalog) : Upgrades [] catalog catalog
  | cons {version : String} {rest : List String}
      {catalog next last : Catalog} (now : Timestamp)
      (hup : C.up version now catalog = .ok next)
      (hrest : Upgrades rest next last) :
      Upgrades (version :: rest) catalog last

/-- Why a `setup` can fail. -/
inductive SetupRefusal (db : Installation Catalog) : SetupError → Prop where
  | lock (fault : DieselError) :
      SetupRefusal db (.database acquiringLock fault)
  | statement (fault : DieselError) : SetupRefusal db (.migrationFault fault)
  | unsupported (h : Unrecognized C db) :
      SetupRefusal db
        (schemaUnsupported (C.problems .releasedBaseline db.catalog))
  | contract {problems : List String} (h : problems ≠ []) :
      SetupRefusal db (contractBroken problems)

variable {C} {harness : Harness}

/-- The rule for one statement: it fails, or the body goes on with its
result. -/
theorem ensures_migrationQuery {α : Type} {stmt : SetupStmt}
    {next : stmt.Result → SetupTx α}
    {post : α → Installation Catalog → List (SetupEffect Catalog) → Prop}
    {refused : SetupError → Prop} {view : Installation Catalog}
    {effects : List (SetupEffect Catalog)}
    (hfault : ∀ fault, refused (.migrationFault fault))
    (hnext : ∀ now result changes,
      stmt.exec C now view = .ok (result, changes) →
      (next result).Ensures (setupSql C) post refused
        (changes.foldl Installation.applyEffect view) (effects ++ changes)) :
    (migrationQuery stmt >>= next).Ensures (setupSql C) post refused view
      effects := by
  rintro ⟨now, fault⟩
  cases fault with
  | some fault => exact hfault fault
  | none =>
      have hexec : (setupSql C).exec stmt (now, none) view =
          stmt.exec C now view := rfl
      rw [hexec]
      cases hran : stmt.exec C now view with
      | error fault => exact hfault fault
      | ok pair => exact hnext now pair.1 pair.2 hran

/-- The same at the end of a body. -/
theorem ensures_lastQuery {stmt : SetupStmt}
    {post : stmt.Result → Installation Catalog → List (SetupEffect Catalog) →
      Prop}
    {refused : SetupError → Prop} {view : Installation Catalog}
    {effects : List (SetupEffect Catalog)}
    (hfault : ∀ fault, refused (.migrationFault fault))
    (hpost : ∀ now result changes,
      stmt.exec C now view = .ok (result, changes) →
      post result (changes.foldl Installation.applyEffect view)
        (effects ++ changes)) :
    (migrationQuery stmt).Ensures (setupSql C) post refused view effects :=
  ensures_migrationQuery hfault hpost

theorem createSchemaIfAbsent_ensures {refused : SetupError → Prop}
    (hfault : ∀ fault, refused (.migrationFault fault))
    (db : Installation Catalog) (effects : List (SetupEffect Catalog)) :
    createSchemaIfAbsent.Ensures (setupSql C)
      (fun _ view after => view.owned ≠ .absent ∧ view.applied = db.applied ∧
        view.catalog = db.catalog ∧
        (db.owned ≠ .absent → view = db ∧ after = effects))
      refused db effects := by
  apply ensures_migrationQuery hfault
  rintro now present changes hexec
  simp only [SetupStmt.exec, Except.ok.injEq, Prod.mk.injEq] at hexec
  obtain ⟨rfl, rfl⟩ := hexec
  rw [List.append_nil]
  by_cases habsent : db.owned = .absent
  · simp only [habsent, ne_eq, not_true_eq_false, decide_false, Bool.not_false,
      ↓reduceIte]
    apply ensures_lastQuery hfault
    intro _ _ changes hcreated
    simp only [SetupStmt.exec, List.foldl_nil, habsent, ↓reduceIte,
      Except.ok.injEq, Prod.mk.injEq] at hcreated
    obtain ⟨_, rfl⟩ := hcreated
    simp [Installation.applyEffect, Installation.applied, habsent]
  · simp only [habsent, ne_eq, not_false_eq_true, decide_true, Bool.not_true,
      Bool.false_eq_true, ↓reduceIte]
    exact ⟨habsent, rfl, rfl, fun _ => ⟨rfl, rfl⟩⟩

/-- The harness creates the journal where the private schema has none. -/
theorem appliedMigrations_exec {now : Timestamp} {view : Installation Catalog}
    {applied : List String} {changes : List (SetupEffect Catalog)}
    (h : SetupStmt.appliedMigrations.exec C now view = .ok (applied, changes)) :
    applied = view.applied ∧
      changes.foldl Installation.applyEffect view =
        { view with owned := .journaled view.applied } := by
  cases howned : view.owned with
  | absent => simp [SetupStmt.exec, howned] at h
  | unjournaled =>
      simp only [SetupStmt.exec, howned, Except.ok.injEq, Prod.mk.injEq] at h
      obtain ⟨rfl, rfl⟩ := h
      simp [Installation.applied, Installation.applyEffect, howned]
  | journaled versions =>
      simp only [SetupStmt.exec, howned, Except.ok.injEq, Prod.mk.injEq] at h
      obtain ⟨rfl, rfl⟩ := h
      have happlied : view.applied = versions := by
        simp [Installation.applied, howned]
      refine ⟨happlied.symm, ?_⟩
      rw [happlied, ← howned]
      rfl

section Bodies

variable {refused : SetupError → Prop}
  (hfault : ∀ fault, refused (.migrationFault fault))
include hfault

theorem insertVersions_ensures (versions : List String)
    {view : Installation Catalog} {recorded : List String}
    (hview : view.owned = .journaled recorded)
    (effects : List (SetupEffect Catalog)) :
    (insertVersions versions).Ensures (setupSql C)
      (fun _ after _ =>
        after = { view with owned := .journaled (recorded ++ versions) })
      refused view effects := by
  induction versions generalizing view recorded effects with
  | nil =>
      rw [List.append_nil, ← hview]
      rfl
  | cons version rest ih =>
      apply ensures_migrationQuery hfault
      intro now result changes hexec
      simp only [SetupStmt.exec, hview] at hexec
      split at hexec
      · cases hexec
      · simp only [Except.ok.injEq, Prod.mk.injEq] at hexec
        obtain ⟨_, rfl⟩ := hexec
        have happlied : view.applied = recorded := by
          simp [Installation.applied, hview]
        have hnext := @ih
          { view with owned := .journaled (recorded ++ [version]) }
          (recorded ++ [version]) rfl (effects ++ [.recorded version])
        simpa [Installation.applyEffect, happlied] using hnext

theorem runMigrations_ensures (versions : List String)
    {view : Installation Catalog} {recorded : List String}
    (hview : view.owned = .journaled recorded)
    (effects : List (SetupEffect Catalog)) :
    (runMigrations versions).Ensures (setupSql C)
      (fun _ after _ => after.owned = .journaled (recorded ++ versions) ∧
        Upgrades C versions view.catalog after.catalog)
      refused view effects := by
  induction versions generalizing view recorded effects with
  | nil =>
      refine ⟨?_, .nil _⟩
      rw [List.append_nil, hview]
  | cons version rest ih =>
      apply ensures_migrationQuery hfault
      intro now result changes hexec
      simp only [SetupStmt.exec, hview] at hexec
      cases hup : C.up version now view.catalog with
      | error fault => simp [hup, bind, Except.bind] at hexec
      | ok catalog =>
          simp only [hup, bind, Except.bind] at hexec
          split at hexec
          · cases hexec
          · simp only [Except.ok.injEq, Prod.mk.injEq] at hexec
            obtain ⟨_, rfl⟩ := hexec
            have happlied : view.applied = recorded := by
              simp [Installation.applied, hview]
            have hnext := @ih
              ⟨.journaled (recorded ++ [version]), catalog⟩
              (recorded ++ [version]) rfl
              (effects ++ [.rewritten catalog, .recorded version])
            have hmove : ([.rewritten catalog, .recorded version] :
                List (SetupEffect Catalog)).foldl Installation.applyEffect
                  view = ⟨.journaled (recorded ++ [version]), catalog⟩ := by
              simp only [List.foldl_cons, List.foldl_nil,
                Installation.applyEffect]
              rw [show ({ view with catalog := catalog } :
                Installation Catalog).applied = recorded from happlied]
            rw [hmove]
            refine hnext.mono ?_ (fun _ => id)
            rintro _ after _ ⟨howned, hrest⟩
            refine ⟨?_, .cons now hup hrest⟩
            rw [howned, List.append_assoc]
            rfl

theorem verifyStructure_ensures
    (hcontract : ∀ problems, problems ≠ [] → refused (contractBroken problems))
    (view : Installation Catalog) (effects : List (SetupEffect Catalog)) :
    verifyStructure.Ensures (setupSql C)
      (fun _ after later => after = view ∧ later = effects ∧
        C.problems .current view.catalog = [])
      refused view effects := by
  apply ensures_migrationQuery hfault
  intro now problems changes hexec
  simp only [SetupStmt.exec, Except.ok.injEq, Prod.mk.injEq] at hexec
  obtain ⟨rfl, rfl⟩ := hexec
  rw [List.append_nil]
  split
  · rename_i hempty
    exact ⟨rfl, rfl, List.isEmpty_iff.mp hempty⟩
  · rename_i hbroken
    exact hcontract _ (fun hnil => hbroken (List.isEmpty_iff.mpr hnil))

theorem runPendingMigrations_ensures {view : Installation Catalog}
    {recorded : List String} (hview : view.owned = .journaled recorded)
    (effects : List (SetupEffect Catalog)) :
    (runPendingMigrations harness).Ensures (setupSql C)
      (fun _ after _ =>
        after.owned = .journaled (recorded ++ harness.pending recorded) ∧
        Upgrades C (harness.pending recorded) view.catalog after.catalog)
      refused view effects := by
  apply ensures_migrationQuery hfault
  intro now applied changes hexec
  obtain ⟨rfl, hmove⟩ := appliedMigrations_exec hexec
  have happlied : view.applied = recorded := by
    simp [Installation.applied, hview]
  rw [hmove, happlied]
  exact @runMigrations_ensures _ C _ hfault (harness.pending recorded)
    { view with owned := .journaled recorded } recorded rfl _

theorem recognizedLegacy_ensures (view : Installation Catalog)
    (effects : List (SetupEffect Catalog)) :
    recognizedLegacy.Ensures (setupSql C)
      (fun legacy after _ => after = view ∧
        (legacy = true ↔ C.problems .legacy view.catalog = [] ∧
          C.legacyShape view.catalog = true))
      refused view effects := by
  apply ensures_migrationQuery hfault
  intro now problems changes hexec
  simp only [SetupStmt.exec, Except.ok.injEq, Prod.mk.injEq] at hexec
  obtain ⟨rfl, rfl⟩ := hexec
  rw [List.append_nil]
  split
  · rename_i hbroken
    refine ⟨rfl, ?_⟩
    have hproblems : C.problems .legacy view.catalog ≠ [] := by
      rintro hnil
      simp [hnil] at hbroken
    simp [hproblems]
  · rename_i hclean
    have hnil : C.problems .legacy view.catalog = [] := by
      simpa using hclean
    apply ensures_lastQuery hfault
    intro _ shape changes hshape
    simp only [SetupStmt.exec, Except.ok.injEq, Prod.mk.injEq] at hshape
    obtain ⟨rfl, rfl⟩ := hshape
    simp [hnil]

/-- The adoption records the history of the generation it recognizes, and
refuses a schema it does not. -/
theorem adoptOrCheckExisting_ensures {db view : Installation Catalog}
    (happlied : view.applied = db.applied) (hcatalog : view.catalog = db.catalog)
    (hunsupported : Unrecognized C db → refused
      (schemaUnsupported (C.problems .releasedBaseline db.catalog)))
    (effects : List (SetupEffect Catalog)) :
    adoptOrCheckExisting.Ensures (setupSql C)
      (fun _ after _ => ∃ adopted, Recognizes C db adopted ∧
        after = ⟨.journaled (db.applied ++ adopted), db.catalog⟩)
      refused view effects := by
  apply ensures_migrationQuery hfault
  intro now applied changes hexec
  obtain ⟨rfl, hmove⟩ := appliedMigrations_exec hexec
  rw [hmove, happlied, hcatalog]
  split
  · rename_i hrecorded
    refine ⟨[], .recorded ?_, by simp⟩
    rintro hnil
    simp [hnil] at hrecorded
  rename_i hempty
  have hnil : db.applied = [] := by simpa using hempty
  rw [hnil]
  apply ensures_migrationQuery hfault
  intro _ occupied changes hoccupied
  simp only [SetupStmt.exec, Except.ok.injEq, Prod.mk.injEq] at hoccupied
  obtain ⟨rfl, rfl⟩ := hoccupied
  split
  · rename_i hfree
    exact ⟨[], .fresh hnil (by simpa using hfree), by simp⟩
  rename_i hoccupied
  simp only [Bool.not_eq_true', Bool.not_eq_false] at hoccupied
  apply ensures_migrationQuery hfault
  intro _ problems changes hproblems
  simp only [SetupStmt.exec, Except.ok.injEq, Prod.mk.injEq] at hproblems
  obtain ⟨rfl, rfl⟩ := hproblems
  by_cases hfinal : C.problems .adoptable db.catalog = []
  · simp only [List.foldl_nil, hfinal, List.isEmpty_nil, ↓reduceIte,
      Program.pure_eq, Program.commit_bind, Bool.true_or]
    refine (insertVersions_ensures hfault currentFinalAdoptVersions
      rfl _).mono ?_ (fun _ => id)
    rintro _ _ _ rfl
    exact ⟨_, .final hnil hoccupied hfinal, rfl⟩
  · have hnonempty : (C.problems .adoptable db.catalog).isEmpty = false := by
      simpa using hfinal
    simp only [List.foldl_nil, hnonempty, Bool.false_eq_true, ↓reduceIte,
      Bool.false_or]
    apply ensures_migrationQuery hfault
    intro _ problems changes hproblems
    simp only [SetupStmt.exec, Except.ok.injEq, Prod.mk.injEq] at hproblems
    obtain ⟨rfl, rfl⟩ := hproblems
    split
    · rename_i hbaseline
      refine (insertVersions_ensures hfault baselineVersions
        rfl _).mono ?_ (fun _ => id)
      rintro _ _ _ rfl
      exact ⟨_, .baseline hnil hoccupied hfinal
        (List.isEmpty_iff.mp hbaseline), rfl⟩
    · rename_i hbaseline
      simp only [List.isEmpty_iff] at hbaseline
      apply Program.ensures_bind
      refine (recognizedLegacy_ensures hfault _ _).mono ?_ (fun _ => id)
      rintro legacy _ _ ⟨rfl, hlegacy⟩
      split
      · rename_i hrecognized
        obtain ⟨hclean, hshape⟩ := hlegacy.mp hrecognized
        exact ⟨[], .legacy hnil hoccupied hfinal hbaseline hclean hshape, rfl⟩
      · rename_i hrefused
        apply hunsupported
        refine ⟨hnil, hoccupied, hfinal, hbaseline, ?_⟩
        intro hclean
        by_contra hshape
        exact hrefused (hlegacy.mpr ⟨hclean, by simpa using hshape⟩)

end Bodies

/-- What the migrations of a committed `setup` come to. -/
structure Installs (C : CatalogModel Catalog) (db after : Installation Catalog)
    (adopted missing : List String) : Prop where
  recognized : Recognizes C db adopted
  upgraded : Upgrades C missing db.catalog after.catalog
  journal : after.owned = .journaled (db.applied ++ adopted ++ missing)
  contract : C.problems .current after.catalog = []

theorem setup_ensures (db : Installation Catalog) :
    (setup harness).Ensures (setupSql C)
      (fun _ after _ => ∃ adopted, Installs C db after adopted
        (harness.pending (db.applied ++ adopted)))
      (SetupRefusal C db) db [] := by
  have hfault : ∀ fault, SetupRefusal C db (.migrationFault fault) :=
    .statement
  rintro ⟨now, fault⟩
  cases fault with
  | some fault => exact .lock fault
  | none =>
      change (createSchemaIfAbsent >>= fun _ => _).Ensures (setupSql C) _ _
        db []
      apply Program.ensures_bind
      refine (createSchemaIfAbsent_ensures hfault db []).mono ?_ (fun _ => id)
      rintro _ view effects ⟨_, happlied, hcatalog, _⟩
      apply ensures_migrationQuery hfault
      intro _ _ changes hpath
      simp only [SetupStmt.exec, Except.ok.injEq, Prod.mk.injEq] at hpath
      obtain ⟨_, rfl⟩ := hpath
      apply Program.ensures_bind
      refine (adoptOrCheckExisting_ensures hfault happlied hcatalog
        .unsupported _).mono ?_ (fun _ => id)
      rintro _ _ effects ⟨adopted, hrecognized, rfl⟩
      apply Program.ensures_bind
      refine (runPendingMigrations_ensures hfault rfl _).mono ?_ (fun _ => id)
      rintro _ after effects ⟨howned, hupgraded⟩
      refine (verifyStructure_ensures hfault (fun _ => .contract)
        after effects).mono ?_ (fun _ => id)
      rintro _ _ _ ⟨rfl, _, hcontract⟩
      exact ⟨adopted, hrecognized, hupgraded, howned, hcontract⟩

theorem embeddedVersions_ascend : embeddedVersions.Pairwise (· < ·) := by
  decide +kernel

/-- The order of the versions leaves the harness no choice. -/
theorem Harness.pending_eq (harness : Harness) (applied : List String) :
    harness.pending applied =
      embeddedVersions.filter fun version => version ∉ applied := by
  have hperm : (harness.pending applied).Perm
      (embeddedVersions.filter fun version => version ∉ applied) := by
    rw [List.perm_ext_iff_of_nodup]
    · intro version
      simp [harness.mem_pending]
    · exact (harness.pending_ascends applied).imp fun h => ne_of_lt h
    · exact (embeddedVersions_ascend.imp fun h => ne_of_lt h).filter _
  exact hperm.eq_of_pairwise (fun _ _ _ _ h1 h2 => absurd h1 (lt_asymm h2))
    (harness.pending_ascends applied) (embeddedVersions_ascend.filter _)

theorem Recognizes.adopted_subset {db : Installation Catalog}
    {adopted : List String} (h : Recognizes C db adopted) :
    adopted ⊆ currentFinalAdoptVersions := by
  cases h with
  | recorded _ | fresh _ _ | legacy _ _ _ _ _ _ => exact List.nil_subset _
  | final _ _ _ => exact fun _ => id
  | baseline _ _ _ _ => decide

/-- What a `setup` that is carried out makes of an installation. -/
def InstallsMissing (C : CatalogModel Catalog) (db after : Installation Catalog) :
    Prop :=
  ∃ adopted missing, Installs C db after adopted missing ∧
    missing = (embeddedVersions.filter fun version =>
      version ∉ db.applied ++ adopted) ∧
    ∀ version ∈ embeddedVersions, version ∉ db.applied →
      version ∉ currentFinalAdoptVersions → version ∈ missing

/-- The transaction of a `setup`, executed alone. -/
theorem setup_execute (harness : Harness) (db : Installation Catalog)
    (env : Nat → Timestamp × Option DieselError) :
    match (setup harness).execute (setupSql C) env db with
    | ⟨after, _, .ok _⟩ => InstallsMissing C db after
    | ⟨after, effects, .error error⟩ =>
        after = db ∧ effects = [] ∧ SetupRefusal C db error := by
  have hstop := (@setup_ensures _ C harness db).execute env
  generalize (setup harness).execute (setupSql C) env db = stop at hstop ⊢
  obtain ⟨after, effects, outcome⟩ := stop
  cases outcome with
  | error error => exact hstop
  | ok value =>
      obtain ⟨adopted, hinstalls⟩ := hstop
      rw [harness.pending_eq] at hinstalls
      refine ⟨adopted, _, hinstalls, rfl, ?_⟩
      intro version hembedded happlied hlater
      rw [List.mem_filter]
      refine ⟨hembedded, ?_⟩
      have hadopted : version ∉ adopted := fun hmem =>
        hlater (hinstalls.recognized.adopted_subset hmem)
      simp [happlied, hadopted]

/-- A `setup` that returns `Ok` ran the bodies that neither the journal nor the
adopted history accounts for, in order, and left a journal and a catalog that
satisfy the contract; adoption never stands in for a later migration.  One that
fails leaves the installation as it was, unless its COMMIT was carried out and
only the answer was lost. -/
theorem setup_installs_missing (harness : Harness) (db : Installation Catalog)
    (env : Nat → Timestamp × Option DieselError) (ended : TransactionEnd) :
    (∀ after, setupCall C harness db env ended = (.ok (), after) →
      InstallsMissing C db after) ∧
    ∀ error after, setupCall C harness db env ended = (.error error, after) →
      (after = db ∧ (SetupRefusal C db error ∨
        ∃ fault, error = .ofTransaction fault)) ∨
      ∃ fault, ended = .endFailed fault true ∧
        error = .ofTransaction fault ∧ InstallsMissing C db after := by
  have hstop := @setup_execute _ C harness db env
  unfold setupCall
  generalize (setup harness).execute (setupSql C) env db = stop at hstop ⊢
  obtain ⟨view, effects, outcome⟩ := stop
  cases ended with
  | beginFailed fault =>
      refine ⟨by rintro after ⟨⟩, ?_⟩
      intro error after h
      cases h
      exact Or.inl ⟨rfl, Or.inr ⟨fault, rfl⟩⟩
  | served =>
      cases outcome with
      | error refused =>
          refine ⟨by rintro after ⟨⟩, ?_⟩
          intro error after h
          cases h
          exact Or.inl ⟨rfl, Or.inl hstop.2.2⟩
      | ok value =>
          refine ⟨?_, by rintro error after ⟨⟩⟩
          intro after h
          cases h
          exact hstop
  | endFailed fault carriedOut =>
      cases outcome with
      | error refused =>
          refine ⟨by rintro after ⟨⟩, ?_⟩
          intro error after h
          cases h
          exact Or.inl ⟨rfl, Or.inr ⟨fault, rfl⟩⟩
      | ok value =>
          refine ⟨by rintro after ⟨⟩, ?_⟩
          intro error after h
          cases carriedOut with
          | false =>
              cases h
              exact Or.inl ⟨rfl, Or.inr ⟨fault, rfl⟩⟩
          | true =>
              cases h
              exact Or.inr ⟨fault, rfl, rfl, hstop⟩

/-- The journal records every embedded migration. -/
def Installation.Complete (db : Installation Catalog) : Prop :=
  ∀ version ∈ embeddedVersions, version ∈ db.applied

theorem Installs.complete {db after : Installation Catalog}
    {adopted : List String}
    (h : Installs C db after adopted (harness.pending (db.applied ++ adopted))) :
    after.Complete := by
  intro version hembedded
  have happlied : after.applied = db.applied ++ adopted ++
      harness.pending (db.applied ++ adopted) := by
    simp [Installation.applied, h.journal]
  rw [happlied, List.mem_append]
  by_cases hold : version ∈ db.applied ++ adopted
  · exact Or.inl hold
  · exact Or.inr ((harness.mem_pending _ _).mpr ⟨hembedded, hold⟩)

theorem Installation.Complete.journaled {db : Installation Catalog}
    (h : db.Complete) :
    db.owned = .journaled db.applied ∧ db.applied ≠ [] := by
  have hfirst : "00000000000000" ∈ db.applied := h _ (by decide)
  have hnonempty : db.applied ≠ [] := List.ne_nil_of_mem hfirst
  refine ⟨?_, hnonempty⟩
  cases howned : db.owned with
  | journaled versions => simp [Installation.applied, howned]
  | absent | unjournaled => simp [Installation.applied, howned] at hnonempty

theorem Installation.Complete.pending_eq_nil {db : Installation Catalog}
    (h : db.Complete) (harness : Harness) :
    harness.pending db.applied = [] := by
  apply List.eq_nil_iff_forall_not_mem.mpr
  intro version hmem
  obtain ⟨hembedded, hnew⟩ := (harness.mem_pending _ _).mp hmem
  exact hnew (h version hembedded)

theorem Installation.Complete.applied_exec {db : Installation Catalog}
    (h : db.Complete) {now : Timestamp} {applied : List String}
    {changes : List (SetupEffect Catalog)}
    (hexec : SetupStmt.appliedMigrations.exec C now db =
      .ok (applied, changes)) : applied = db.applied ∧ changes = [] := by
  simp only [SetupStmt.exec, h.journaled.1, Except.ok.injEq, Prod.mk.injEq]
    at hexec
  exact ⟨hexec.1.symm, hexec.2.symm⟩

/-- Over a complete journal a `setup` only checks the contract. -/
theorem setup_ensures_of_complete {db : Installation Catalog}
    (h : db.Complete) :
    (setup harness).Ensures (setupSql C)
      (fun _ after effects => after = db ∧ effects = [])
      (fun _ => True) db [] := by
  have hfault : ∀ fault : DieselError, True := fun _ => trivial
  obtain ⟨howned, hnonempty⟩ := h.journaled
  have hadopt : adoptOrCheckExisting.Ensures (setupSql C)
      (fun _ after effects => after = db ∧ effects = []) (fun _ => True)
      db [] := by
    apply ensures_migrationQuery hfault
    intro now applied changes hexec
    obtain ⟨rfl, rfl⟩ := h.applied_exec hexec
    have hrecorded : (!db.applied.isEmpty) = true := by simpa using hnonempty
    rw [if_pos hrecorded]
    exact ⟨rfl, rfl⟩
  have hrun : (runPendingMigrations harness).Ensures (setupSql C)
      (fun _ after effects => after = db ∧ effects = []) (fun _ => True)
      db [] := by
    apply ensures_migrationQuery hfault
    intro now applied changes hexec
    obtain ⟨rfl, rfl⟩ := h.applied_exec hexec
    rw [h.pending_eq_nil]
    exact ⟨rfl, rfl⟩
  rintro ⟨now, fault⟩
  cases fault with
  | some fault => trivial
  | none =>
      change (createSchemaIfAbsent >>= fun _ => _).Ensures (setupSql C) _ _
        db []
      apply Program.ensures_bind
      refine (createSchemaIfAbsent_ensures hfault db []).mono ?_ (fun _ => id)
      rintro _ view effects ⟨_, _, _, hsame⟩
      obtain ⟨rfl, rfl⟩ := hsame (by simp [howned])
      apply ensures_migrationQuery hfault
      intro _ _ changes hpath
      simp only [SetupStmt.exec, Except.ok.injEq, Prod.mk.injEq] at hpath
      obtain ⟨_, rfl⟩ := hpath
      apply Program.ensures_bind
      refine hadopt.mono ?_ (fun _ => id)
      rintro _ _ _ ⟨rfl, rfl⟩
      apply Program.ensures_bind
      refine hrun.mono ?_ (fun _ => id)
      rintro _ _ _ ⟨rfl, rfl⟩
      refine (verifyStructure_ensures hfault (fun _ _ => trivial)
        _ _).mono ?_ (fun _ => id)
      rintro _ _ _ ⟨rfl, rfl, _⟩
      exact ⟨rfl, rfl⟩

section Protocol

variable {initial : Installation Catalog}

/-- A statement that writes nothing by itself writes nothing where any
statement may fail. -/
theorem reads_withFaults {stmt : SetupStmt}
    (h : ∀ now (db : Installation Catalog) result changes,
      stmt.exec C now db = .ok (result, changes) → changes = []) :
    (setupSql C).Reads stmt := by
  rintro ⟨now, fault⟩ db result changes hexec
  cases fault with
  | some fault => cases hexec
  | none => exact h now db result changes hexec

/-- `verify_schema` only reads. -/
theorem verifySchema_only : verifySchema.Only (setupSql C).Reads := by
  have hpath : (setupSql C).Reads .ownedSearchPath :=
    reads_withFaults fun _ _ _ _ hexec => by cases hexec; rfl
  have hexists : (setupSql C).Reads .journalExists :=
    reads_withFaults fun _ _ _ _ hexec => by cases hexec; rfl
  have hproblems : (setupSql C).Reads (.schemaProblems .current) :=
    reads_withFaults fun _ _ _ _ hexec => by cases hexec; rfl
  have hversions : (setupSql C).Reads .journalVersions := by
    apply reads_withFaults
    intro now db result changes hexec
    cases howned : db.owned with
    | absent | unjournaled => simp [SetupStmt.exec, howned] at hexec
    | journaled versions =>
        simp only [SetupStmt.exec, howned, Except.ok.injEq,
          Prod.mk.injEq] at hexec
        exact hexec.2.symm
  refine ⟨hpath, fun _ => ⟨hexists, fun present => ?_⟩⟩
  cases present with
  | false => trivial
  | true =>
      refine ⟨hversions, fun applied => ?_⟩
      refine @Program.only_bind _ _ _ _ _ _ (.commit applied) _ trivial ?_
      intro applied
      split
      · trivial
      · refine ⟨hproblems, fun problems => ?_⟩
        refine @Program.only_bind _ _ _ _ _ _ (.commit problems) _ trivial ?_
        intro problems
        split
        · trivial
        · trivial

theorem setup_takesFirst :
    (setup harness).TakesFirst (setupLocks C) ((), ()) := by
  intro item hstmt
  simp [setupLocks, hstmt]

theorem setup_serial {server : Server (setupSql C) SetupOp Unit}
    (h : (setupServer C harness initial).Reachable server) :
    ∃ runs, server.Serial (setupLocks C) ((), ()) (setupProgram harness)
      initial runs := by
  let _ : Inhabited (Timestamp × Option DieselError) := ⟨(0, none)⟩
  apply Server.reachable_serial _ rfl h
  intro op
  cases op with
  | setup => exact Or.inr setup_takesFirst
  | verifySchema => exact Or.inl verifySchema_only

theorem setup_of_takesFirst (db : Installation Catalog) {op : SetupOp}
    (h : (setupProgram harness op).TakesFirst (setupLocks C) ((), ())) :
    op = .setup := by
  cases op with
  | setup => rfl
  | verifySchema =>
      have hlock := h ⟨.ownedSearchPath, (0, none), db, db, (), [], rfl⟩ rfl
      simp [setupLocks] at hlock

/-- What a committed `setup` leaves satisfies everything `verify_schema` asks
for. -/
structure Installation.Verified (C : CatalogModel Catalog)
    (db : Installation Catalog) : Prop where
  complete : db.Complete
  contract : C.problems .current db.catalog = []

theorem setup_verified {db after : Installation Catalog}
    {env : Nat → Timestamp × Option DieselError}
    {effects : List (SetupEffect Catalog)} {value : Unit}
    (h : (setup harness).execute (setupSql C) env db =
      ⟨after, effects, .ok value⟩) : after.Verified C := by
  have hstop := (@setup_ensures _ C harness db).execute env
  rw [h] at hstop
  obtain ⟨adopted, hinstalls⟩ := hstop
  exact ⟨hinstalls.complete, hinstalls.contract⟩

theorem setup_of_complete {db after : Installation Catalog}
    {env : Nat → Timestamp × Option DieselError}
    {effects : List (SetupEffect Catalog)} {value : Unit}
    (hdb : db.Complete)
    (h : (setup harness).execute (setupSql C) env db =
      ⟨after, effects, .ok value⟩) : after = db ∧ effects = [] := by
  have hstop := (@setup_ensures_of_complete _ C harness db hdb).execute env
  rw [h] at hstop
  exact hstop

/-- The serial runs of `setup`: the first of them installs, and the others
change nothing. -/
theorem serially_setup_cases
    {runs : List (SerialRun SetupOp (Timestamp × Option DieselError))}
    {db : Installation Catalog}
    (h : Serially (setupSql C) (setupProgram harness) initial runs db)
    (hsetup : ∀ run ∈ runs, run.op = .setup) :
    (runs = [] ∧ db = initial) ∨
      (db.Verified C ∧ ∃ env effects,
        (setup harness).execute (setupSql C) env initial =
          ⟨db, effects, .ok ()⟩) := by
  induction h with
  | nil => exact Or.inl ⟨rfl, rfl⟩
  | @concat runs db after run effects value hruns hrun ih =>
      rw [hsetup run (by simp)] at hrun
      right
      rcases ih (fun other hother => hsetup other (by simp [hother])) with
        ⟨_, rfl⟩ | ⟨hverified, hsolo⟩
      · exact ⟨setup_verified hrun, run.env, effects, hrun⟩
      · obtain ⟨rfl, _⟩ := setup_of_complete hverified.complete hrun
        exact ⟨hverified, hsolo⟩

theorem setup_runs_cases {server : Server (setupSql C) SetupOp Unit}
    {runs : List (SerialRun SetupOp (Timestamp × Option DieselError))}
    (h : server.Serial (setupLocks C) ((), ()) (setupProgram harness)
      initial runs) :
    (runs = [] ∧ server.db = initial) ∨
      (server.db.Verified C ∧ ∃ env effects,
        (setup harness).execute (setupSql C) env initial =
          ⟨server.db, effects, .ok ()⟩) :=
  serially_setup_cases h.db fun run hrun =>
    setup_of_takesFirst initial (h.takes run hrun)

/-- A session that wrote and committed did so before any other. -/
theorem first_of_written {server : Server (setupSql C) SetupOp Unit}
    (hreachable : (setupServer C harness initial).Reachable server)
    {runs : List (SerialRun SetupOp (Timestamp × Option DieselError))}
    (h : server.Serial (setupLocks C) ((), ()) (setupProgram harness)
      initial runs) {index : Nat}
    {session : Session (setupSql C) SetupOp Unit} {value : Unit}
    (hsession : server.sessions[index]? = some session)
    (hcommitted : session.stage = .committed value)
    (hwritten : session.pending ≠ []) :
    ∃ env after, runs = ⟨index, .setup, env⟩ :: after := by
  have hop : session.op = .setup := by
    cases hop : session.op with
    | setup => rfl
    | verifySchema =>
        refine absurd ?_ hwritten
        apply Server.reachable_reading hreachable hsession
        rw [hop]
        exact verifySchema_only
  obtain ⟨before, env, after, db, hruns, hbefore, hexecute⟩ :=
    h.committed index session value hsession
      (by rw [hop]; exact setup_takesFirst) hcommitted
  rw [hop] at hruns hexecute
  have hearlier : ∀ run ∈ before, run.op = .setup := by
    intro run hrun
    exact setup_of_takesFirst initial (h.takes run (by simp [hruns, hrun]))
  rcases serially_setup_cases hbefore hearlier with
    ⟨rfl, _⟩ | ⟨hverified, _⟩
  · exact ⟨env, after, hruns⟩
  · exact absurd (setup_of_complete hverified.complete hexecute).2 hwritten

/-- However many `setup` and `verify_schema` calls interleave, wherever they
are cut off: the committed installation is the initial one until a `setup`
commits, and from then on what one `setup` alone makes of it.  At most one
session wrote anything, so no migration body was applied twice. -/
theorem concurrent_setups_install_once
    {server : Server (setupSql C) SetupOp Unit}
    (h : (setupServer C harness initial).Reachable server) :
    ((server.db = initial ∧ ∀ (index : Nat) session value,
        server.sessions[index]? = some session → session.op = .setup →
          session.stage ≠ .committed value) ∨
      ∃ env effects, (setup harness).execute (setupSql C) env initial =
        ⟨server.db, effects, .ok ()⟩) ∧
    ∀ (index other : Nat) first second firstValue secondValue,
      server.sessions[index]? = some first →
      server.sessions[other]? = some second →
      first.stage = .committed firstValue →
      second.stage = .committed secondValue →
      first.pending ≠ [] → second.pending ≠ [] → index = other := by
  obtain ⟨runs, hserial⟩ := setup_serial h
  constructor
  · rcases setup_runs_cases hserial with ⟨rfl, hdb⟩ | ⟨_, hsolo⟩
    · refine Or.inl ⟨hdb, ?_⟩
      intro index session value hsession hop hcommitted
      obtain ⟨before, env, after, _, hruns, _⟩ :=
        hserial.committed index session value hsession
          (by rw [hop]; exact setup_takesFirst) hcommitted
      simp at hruns
    · exact Or.inr hsolo
  · intro index other first second _ _ hfirst hsecond hdone hdone' hwrote hwrote'
    obtain ⟨_, _, hruns⟩ := first_of_written h hserial hfirst hdone hwrote
    obtain ⟨_, _, hruns'⟩ := first_of_written h hserial hsecond hdone' hwrote'
    rw [hruns] at hruns'
    simp only [List.cons.injEq, SerialRun.mk.injEq] at hruns'
    exact hruns'.1.1

end Protocol

/-- A catalog that counts the bodies that ran over it. -/
def countingCatalog : CatalogModel Nat where
  occupied count := count ≠ 0
  contract _ _ count := if count = 14 then [] else ["column jobs.job"]
  legacyShape _ := false
  up _ _ count := .ok (count + 1)

def filterHarness : Harness where
  pending applied := embeddedVersions.filter fun version => version ∉ applied
  mem_pending _ _ := by simp
  pending_ascends _ := embeddedVersions_ascend.filter _

abbrev CountedServer := Server (setupSql countingCatalog) SetupOp Unit

/-- An empty database. -/
def emptyServer : CountedServer := ⟨⟨.absent, 0⟩, []⟩

/-- Two processes install it; the second waits for the lock. -/
def setupRace :
    List (ServerEvent SetupOp (Timestamp × Option DieselError) SetupError) :=
  [.begin .setup, .begin .setup] ++
    List.replicate 22 (.statement 0 (0, none)) ++ [.finish 0] ++
    List.replicate 6 (.statement 1 (0, none)) ++ [.finish 1]

def racedSetups : CountedServer :=
  ((setupServer countingCatalog filterHarness emptyServer.db).run emptyServer
    setupRace).getD emptyServer

theorem racedSetups_reachable :
    (setupServer countingCatalog filterHarness emptyServer.db).Reachable
      racedSetups :=
  ⟨emptyServer, rfl, Machine.follows_of_run setupRace
    (Machine.run_eq_getD emptyServer (by decide +kernel))⟩

theorem concurrent_setups_install_once_raced :
    (racedSetups.sessions.map fun session => session.stage.isCommitted) =
        [true, true] ∧
      ∃ env effects, (setup filterHarness).execute (setupSql countingCatalog)
        env emptyServer.db = ⟨racedSetups.db, effects, .ok ()⟩ := by
  refine ⟨by decide +kernel, ?_⟩
  apply (concurrent_setups_install_once racedSetups_reachable).1.resolve_left
  rintro ⟨hdb, _⟩
  have hcount : racedSetups.db.catalog ≠ 0 := by decide +kernel
  exact hcount (by rw [hdb]; rfl)

section Protocol

variable {initial : Installation Catalog}

/-- A verified installation is never written again. -/
theorem verified_kept {server after : Server (setupSql C) SetupOp Unit}
    (hreachable : (setupServer C harness initial).Reachable server)
    (hverified : server.db.Verified C)
    (hafter : (setupServer C harness initial).Follows server after) :
    after.db = server.db := by
  let kept : Server (setupSql C) SetupOp Unit → Prop := fun state =>
    (setupServer C harness initial).Reachable state ∧ state.db = server.db
  have hkept : kept after := by
    apply hafter.invariant kept _ ⟨hreachable, rfl⟩
    rintro state next event ⟨hstate, hdb⟩ hevent
    refine ⟨hstate.step hevent, ?_⟩
    rcases (Server.step_cases hevent).db_cases with hsame |
      ⟨index, session, value, _, hsession, hstage, hwritten, _⟩
    · rw [hsame, hdb]
    · have hpending : session.pending = [] := by
        cases hop : session.op with
        | setup =>
            let _ : Inhabited (Timestamp × Option DieselError) := ⟨(0, none)⟩
            obtain ⟨runs, hserial⟩ := setup_serial hstate
            obtain ⟨env, hexecute⟩ := (hserial.alone index session hsession
              (by rw [hop]; exact setup_takesFirst)).commits hstage
            rw [hop, hdb] at hexecute
            exact (setup_of_complete hverified.complete hexecute).2
        | verifySchema =>
            apply Server.reachable_reading hstate hsession
            rw [hop]
            exact verifySchema_only
      rw [hwritten, hpending, hdb]
      rfl
  exact hkept.2

section Quiet

variable {db : Installation Catalog}
  {env : Nat → Timestamp × Option DieselError}

theorem exec_quiet {observed : Timestamp × Option DieselError}
    (h : observed.2 = none) (stmt : SetupStmt) :
    (setupSql C).exec stmt observed db = stmt.exec C observed.1 db := by
  simp only [setupSql, StatementModel.withFaults, h]
  rfl

/-- What `verify_schema` accepts is complete and satisfies the contract. -/
theorem verifySchema_ensures (db : Installation Catalog) :
    verifySchema.Ensures (setupSql C) (fun _ _ _ => db.Verified C)
      (fun _ => True) db [] := by
  have hfault : ∀ fault : DieselError, True := fun _ => trivial
  apply ensures_migrationQuery hfault
  intro _ _ changes hpath
  simp only [SetupStmt.exec, Except.ok.injEq, Prod.mk.injEq] at hpath
  obtain ⟨_, rfl⟩ := hpath
  apply ensures_migrationQuery hfault
  intro _ present changes hpresent
  simp only [SetupStmt.exec, Except.ok.injEq, Prod.mk.injEq] at hpresent
  obtain ⟨_, rfl⟩ := hpresent
  split
  · trivial
  apply ensures_migrationQuery hfault
  intro _ applied changes hversions
  have hjournal : applied = db.applied ∧ changes = [] := by
    cases howned : db.owned with
    | absent | unjournaled => simp [SetupStmt.exec, howned] at hversions
    | journaled versions =>
        simp only [SetupStmt.exec, List.foldl_nil, howned, Except.ok.injEq,
          Prod.mk.injEq] at hversions
        simp [Installation.applied, howned, hversions]
  obtain ⟨rfl, rfl⟩ := hjournal
  split
  · trivial
  · rename_i hmissing
    refine (verifyStructure_ensures hfault (fun _ _ => trivial) _ _).mono ?_
      (fun _ => id)
    rintro _ _ _ ⟨_, _, hcontract⟩
    refine ⟨?_, hcontract⟩
    intro version hembedded
    obtain ⟨migration, hmigration, rfl⟩ := List.mem_map.mp hembedded
    by_contra hunrecorded
    apply hmissing
    simp only [List.any_eq_true, Bool.not_eq_true', List.any_eq_false,
      decide_eq_true_eq]
    refine ⟨migration, hmigration, ?_⟩
    rintro recorded hrecorded rfl
    exact hunrecorded hrecorded

/-- Where no statement fails, `verify_schema` accepts exactly the verified
installations. -/
theorem verifySchema_ok_iff (hquiet : ∀ n, (env n).2 = none) :
    (verifySchema.execute (setupSql C) env db).outcome = .ok () ↔
      db.Verified C := by
  constructor
  · intro hok
    have hstop := (@verifySchema_ensures _ C db).execute env
    rcases hrun : verifySchema.execute (setupSql C) env db with
      ⟨after, effects, outcome⟩
    rw [hrun] at hok hstop
    obtain rfl : outcome = .ok () := hok
    exact hstop
  · intro h
    have hrecorded : ¬ ∃ migration, migration ∈ embeddedMigrations ∧
        ∀ version, version ∈ db.applied → ¬ version = migration.version := by
      rintro ⟨migration, hmigration, hunrecorded⟩
      exact hunrecorded migration.version
        (h.complete _ (List.mem_map_of_mem hmigration)) rfl
    have hrun : verifySchema.runBody (setupSql C) env 0 db [] =
        ⟨db, [], .ok ()⟩ := by
      simp [verifySchema, verifyStructure, migrationQuery, Program.runBody,
        exec_quiet (hquiet _), SetupStmt.exec, h.complete.journaled.1,
        h.contract, hrecorded, (setupSql C).apply_nil]
    rw [Program.execute_of_runBody hrun]

theorem setup_of_verified (h : db.Verified C)
    (hquiet : ∀ n, (env n).2 = none) :
    (setup harness).execute (setupSql C) env db = ⟨db, [], .ok ()⟩ := by
  have htransactional : (embeddedMigrations.any fun migration =>
      !migration.runInTransaction) = false := by decide
  apply Program.execute_of_runBody
  simp [setup, createSchemaIfAbsent, adoptOrCheckExisting,
    runPendingMigrations, runMigrations, verifyStructure, migrationQuery,
    Program.runBody, exec_quiet (hquiet _), SetupStmt.exec,
    h.complete.journaled.1, h.complete.journaled.2, h.contract,
    htransactional, h.complete.pending_eq_nil, (setupSql C).apply_nil]

end Quiet

/-- From the first committed `setup` on, nothing is written any more: every
later state has the same installation, a further `setup` commits without a
change, and `verify_schema` accepts. -/
theorem verified_after_setup {server later : Server (setupSql C) SetupOp Unit}
    (h : (setupServer C harness initial).Reachable server) {index : Nat}
    {session : Session (setupSql C) SetupOp Unit} {value : Unit}
    (hsession : server.sessions[index]? = some session)
    (hop : session.op = .setup) (hcommitted : session.stage = .committed value)
    (hlater : (setupServer C harness initial).Follows server later)
    {env : Nat → Timestamp × Option DieselError}
    (hquiet : ∀ n, (env n).2 = none) :
    later.db = server.db ∧
      (setup harness).execute (setupSql C) env later.db =
        ⟨later.db, [], .ok ()⟩ ∧
      (verifySchema.execute (setupSql C) env later.db).outcome = .ok () := by
  obtain ⟨runs, hserial⟩ := setup_serial h
  have hverified : server.db.Verified C := by
    rcases setup_runs_cases hserial with ⟨rfl, _⟩ | ⟨hverified, _⟩
    · obtain ⟨before, env, after, _, hruns, _⟩ :=
        hserial.committed index session value hsession
          (by rw [hop]; exact setup_takesFirst) hcommitted
      simp at hruns
    · exact hverified
  have hkept := verified_kept h hverified hlater
  rw [hkept]
  exact ⟨rfl, setup_of_verified hverified hquiet,
    (verifySchema_ok_iff hquiet).mpr hverified⟩

end Protocol

theorem verified_after_setup_raced :
    (verifySchema.execute (setupSql countingCatalog) (fun _ => (0, none))
      racedSetups.db).outcome = .ok () := by
  have hfirst : (racedSetups.sessions[0]?.map fun session =>
      (session.op, session.stage.isCommitted)) = some (.setup, true) := by
    decide +kernel
  obtain ⟨session, hsession, hfacts⟩ := Option.map_eq_some_iff.mp hfirst
  obtain ⟨hop, hdone⟩ := Prod.mk.inj hfacts
  cases hstage : session.stage with
  | committed value =>
      exact (verified_after_setup racedSetups_reachable hsession hop hstage
        Relation.ReflTransGen.refl (fun _ => rfl)).2.2
  | running _ | refused _ | aborted _ =>
      rw [hstage] at hdone
      cases hdone

end ApalisPostgres
