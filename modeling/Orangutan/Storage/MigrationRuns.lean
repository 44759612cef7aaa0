import Orangutan.Storage.Migrations

/-!
# Migrations exactly once

Whatever the order in which the callers take their turns and whatever fails in them, the
versions in the database are those from 1 to a number, and the scripts of these ran once
each, in order. The log keeps who applied a version.
-/

namespace Orangutan.Storage.Migrations

set_option autoImplicit false

open Orangutan.Core

variable {D : Type} {script : Script D} {lists : List (List Migration)} {origin : D} {s : System D}

/-- What holds of the database and of every caller at any time. -/
structure Consistent (script : Script D) (lists : List (List Migration)) (origin : D)
    (s : System D) : Prop where
  given : s.runners.map (·.migrations) = lists
  rows : s.rows = s.log.map (·.2.row)
  versions : s.rows.map (·.version) = versionsTo s.rows.length
  data : (s.log.map (·.2)).foldlM (fun data m => script m.sql data) origin = .ok s.db.data
  known : ∀ entry ∈ s.log, ∃ l, lists[entry.1]? = some l ∧ entry.2 ∈ l
  standing : ∀ i r, s.runners[i]? = some r →
    Standing s.db.schemaVersions.isSome s.rows.length (s.appliedBy i) r

theorem start_consistent (script : Script D) (lists : List (List Migration)) (origin : D) :
    Consistent script lists origin (.start lists origin) where
  given := (List.map_map ..).trans (List.map_id _)
  rows := rfl
  versions := rfl
  data := rfl
  known := fun entry h => by cases h
  standing := by
    intro i r hr
    rw [System.start, List.getElem?_map] at hr
    obtain ⟨l, -, rfl⟩ := Option.map_eq_some_iff.mp hr
    exact rfl

namespace Consistent

theorem list_of_runner (h : Consistent script lists origin s) {i : Nat} {r : Runner}
    (hr : s.runners[i]? = some r) :
    lists[i]? = some r.migrations := by
  rw [← h.given, List.getElem?_map, hr]
  rfl

/-- The name of a stored version is the one that every list has for it. -/
theorem names (h : Consistent script lists origin s) (hcompat : Compatible lists) {i : Nat}
    {r : Runner} (hr : s.runners[i]? = some r) :
    ∀ m ∈ r.migrations, ∀ row ∈ s.rows, row.version = m.version → row.name = m.name := by
  intro m hm row hrow hversion
  rw [h.rows] at hrow
  obtain ⟨entry, hentry, rfl⟩ := List.mem_map.mp hrow
  obtain ⟨l, hl, hmem⟩ := h.known entry hentry
  have hlists := List.mem_of_getElem? (h.list_of_runner hr)
  exact (hcompat l (List.mem_of_getElem? hl) r.migrations hlists entry.2 hmem m hm hversion).1

theorem moved (h : Consistent script lists origin s) (hcompat : Compatible lists) (fault : Faults)
    {i : Nat} {r : Runner} (hr : s.runners[i]? = some r) :
    Moved script fault r s.rows (s.appliedBy i) s.db
      (runMigrations script fault r.migrations s.db r.phase) :=
  runMigrations_moved script fault rfl h.versions (h.names hcompat hr) (h.standing i r hr)

end Consistent

theorem appliedBy_append (s : System D) (db : Database D) (runners : List Runner) (i j : Nat)
    (m : Migration) :
    System.appliedBy ⟨db, runners, s.log ++ [(i, m)]⟩ j =
      if j = i then s.appliedBy j ++ [m.version] else s.appliedBy j := by
  rw [System.appliedBy, System.appliedBy, List.filter_append, List.map_append]
  by_cases hj : j = i
  · subst hj
    simp
  · simp [hj, Ne.symm hj]

theorem getElem?_set_cases {i j : Nat} {r r' : Runner} {runners : List Runner}
    (h : (runners.set i r)[j]? = some r') : (j = i ∧ r' = r) ∨ (j ≠ i ∧ runners[j]? = some r') := by
  by_cases hj : j = i
  · subst hj
    rw [List.getElem?_set_self'] at h
    obtain ⟨-, -, rfl⟩ := Option.map_eq_some_iff.mp h
    exact .inl ⟨rfl, rfl⟩
  · rw [List.getElem?_set_ne (Ne.symm hj)] at h
    exact .inr ⟨hj, h⟩

theorem set_lists {i : Nat} {r : Runner} {phase : Phase} {runners : List Runner}
    (hr : runners[i]? = some r) :
    (runners.set i { r with phase }).map (·.migrations) = runners.map (·.migrations) := by
  rw [List.map_set]
  apply List.ext_getElem?
  intro j
  by_cases hj : j = i
  · subst hj
    rw [List.getElem?_set_self', List.getElem?_map, hr]
    rfl
  · rw [List.getElem?_set_ne (Ne.symm hj)]

theorem step_eq {i : Nat} {r : Runner} (hr : s.runners[i]? = some r) (fault : Faults)
    {move : Move D} (hmove : runMigrations script fault r.migrations s.db r.phase = move) :
    s.step script i fault =
      ⟨move.db, s.runners.set i { r with phase := move.phase },
        s.log ++ (move.applied.map (i, ·)).toList⟩ := by
  rw [System.step, hr, ← hmove]

theorem step_none {i : Nat} (hi : s.runners[i]? = none) (fault : Faults) :
    s.step script i fault = s := by
  rw [System.step, hi]

theorem step_consistent (h : Consistent script lists origin s) (hcompat : Compatible lists)
    (i : Nat) (fault : Faults) : Consistent script lists origin (s.step script i fault) := by
  cases hr : s.runners[i]? with
  | none =>
    rw [step_none hr]
    exact h
  | some r =>
    have hmoved := h.moved hcompat fault hr
    generalize hmove : runMigrations script fault r.migrations s.db r.phase = move at hmoved
    rw [step_eq hr fault hmove]
    have hstanding := h.standing
    cases hmoved with
    | kept hrows hdata htable hphase hnow =>
      constructor
      · exact (set_lists hr).trans h.given
      · rw [Option.map_none, Option.toList_none, List.append_nil]
        exact hrows.trans h.rows
      · show (Option.getD _ []).map _ = versionsTo (Option.getD _ []).length
        rw [hrows]
        exact h.versions
      · rw [Option.map_none, Option.toList_none, List.append_nil, hdata]
        exact h.data
      · rw [Option.map_none, Option.toList_none, List.append_nil]
        exact h.known
      · intro j r' hr'
        show Standing _ (Option.getD _ []).length _ r'
        rw [Option.map_none, Option.toList_none, List.append_nil, hrows]
        rcases getElem?_set_cases hr' with ⟨rfl, rfl⟩ | ⟨-, hr'⟩
        · exact hnow
        · exact (hstanding j r' hr').mono htable (le_refl _)
    | failed hfailure =>
      constructor
      · exact (set_lists hr).trans h.given
      · rw [Option.map_none, Option.toList_none, List.append_nil]
        exact h.rows
      · exact h.versions
      · rw [Option.map_none, Option.toList_none, List.append_nil]
        exact h.data
      · rw [Option.map_none, Option.toList_none, List.append_nil]
        exact h.known
      · intro j r' hr'
        rw [Option.map_none, Option.toList_none, List.append_nil]
        rcases getElem?_set_cases hr' with ⟨rfl, rfl⟩ | ⟨-, hr'⟩
        · exact trivial
        · exact hstanding j r' hr'
    | @applied m data phase hm hversion hlist hscript hphase hnow =>
      have hlog : (Option.map (i, ·) (some m)).toList = [(i, m)] := rfl
      have hcount : (s.rows ++ [m.row]).length = s.rows.length + 1 := by
        rw [List.length_append, List.length_singleton]
      constructor
      · exact (set_lists hr).trans h.given
      · show s.rows ++ [m.row] = _
        rw [hlog, List.map_append, h.rows]
        rfl
      · show (s.rows ++ [m.row]).map _ = versionsTo (s.rows ++ [m.row]).length
        rw [hcount, versionsTo_succ, List.map_append, h.versions]
        exact congrArg (versionsTo s.rows.length ++ [·]) hversion
      · rw [hlog, List.map_append, List.foldlM_append, h.data, ok_bind]
        show (do let data ← script m.sql s.db.data; List.foldlM _ data []) = _
        rw [hscript]
        rfl
      · rw [hlog]
        intro entry hentry
        rcases List.mem_append.mp hentry with hentry | hentry
        · exact h.known entry hentry
        · obtain rfl := List.mem_singleton.mp hentry
          exact ⟨r.migrations, h.list_of_runner hr, hm⟩
      · intro j r' hr'
        show Standing true (s.rows ++ [m.row]).length _ r'
        rw [hlog, hcount, appliedBy_append]
        rcases getElem?_set_cases hr' with ⟨rfl, rfl⟩ | ⟨hj, hr'⟩
        · rw [if_pos rfl]
          exact hnow
        · rw [if_neg hj]
          exact (hstanding j r' hr').mono (fun _ => rfl) (Nat.le_succ _)

theorem run_consistent (h : Consistent script lists origin s) (hcompat : Compatible lists)
    (schedule : List (Nat × Faults)) : Consistent script lists origin (s.run script schedule) := by
  induction schedule generalizing s with
  | nil => exact h
  | cons turn schedule ih => exact ih (step_consistent h hcompat turn.1 turn.2)

/-- A step that ends a call with an error leaves the database, and there is a reason. -/
theorem step_failed (h : Consistent script lists origin s) (hcompat : Compatible lists) {i : Nat}
    {fault : Faults} {r r' : Runner} {e : Error} (hr : s.runners[i]? = some r)
    (hrunning : ∀ outcome, r.phase ≠ .done outcome)
    (hr' : (s.step script i fault).runners[i]? = some r') (he : r'.phase = .done (.error e)) :
    (s.step script i fault).db = s.db ∧ (s.step script i fault).log = s.log ∧
      Failure script fault r.migrations s.rows s.db.data e := by
  have hmoved := h.moved hcompat fault hr
  generalize hmove : runMigrations script fault r.migrations s.db r.phase = move at hmoved
  rw [step_eq hr fault hmove] at hr' ⊢
  rcases getElem?_set_cases hr' with ⟨-, rfl⟩ | ⟨hne, -⟩
  · cases hmoved with
    | kept hrows hdata htable hphase hnow => exact absurd ((hphase e he).trans he) (hrunning _)
    | failed hfailure =>
      cases he
      exact ⟨rfl, List.append_nil _, hfailure⟩
    | applied hm hversion hlist hscript hphase hnow => exact absurd he (hphase e)
  · exact absurd rfl hne

/-- The versions only grow, and a caller whose list they cover applies nothing any more. -/
theorem step_grows (h : Consistent script lists origin s) (hcompat : Compatible lists) (i : Nat)
    (fault : Faults) :
    s.rows.length ≤ (s.step script i fault).rows.length ∧
      ∀ j l, lists[j]? = some l → l.length ≤ s.rows.length →
        (s.step script i fault).appliedBy j = s.appliedBy j := by
  cases hr : s.runners[i]? with
  | none =>
    rw [step_none hr]
    exact ⟨le_refl _, fun _ _ _ _ => rfl⟩
  | some r =>
    have hmoved := h.moved hcompat fault hr
    generalize hmove : runMigrations script fault r.migrations s.db r.phase = move at hmoved
    rw [step_eq hr fault hmove]
    cases hmoved with
    | kept hrows hdata htable hphase hnow =>
      refine ⟨(congrArg List.length hrows).ge, fun j l _ _ => ?_⟩
      rw [System.appliedBy, Option.map_none, Option.toList_none, List.append_nil]
      rfl
    | failed hfailure =>
      refine ⟨le_refl _, fun j l _ _ => ?_⟩
      rw [System.appliedBy, Option.map_none, Option.toList_none, List.append_nil]
      rfl
    | @applied m data phase hm hversion hlist hscript hphase hnow =>
      constructor
      · show s.rows.length ≤ (s.rows ++ [m.row]).length
        rw [List.length_append]
        omega
      · intro j l hl hcovered
        show System.appliedBy ⟨_, _, s.log ++ [(i, m)]⟩ j = _
        rw [appliedBy_append]
        by_cases hj : j = i
        · subst hj
          obtain rfl := Option.some.inj (hl.symm.trans (h.list_of_runner hr))
          omega
        · rw [if_neg hj]

theorem run_grows (h : Consistent script lists origin s) (hcompat : Compatible lists)
    (schedule : List (Nat × Faults)) :
    s.rows.length ≤ (s.run script schedule).rows.length ∧
      ∀ j l, lists[j]? = some l → l.length ≤ s.rows.length →
        (s.run script schedule).appliedBy j = s.appliedBy j := by
  induction schedule generalizing s with
  | nil => exact ⟨le_refl _, fun _ _ _ _ => rfl⟩
  | cons turn schedule ih =>
    obtain ⟨hle, hsame⟩ := step_grows h hcompat turn.1 turn.2
    obtain ⟨hle', hsame'⟩ := ih (step_consistent h hcompat turn.1 turn.2)
    exact ⟨hle.trans hle', fun j l hl hcovered => (hsame' j l hl (hcovered.trans hle)).trans
      (hsame j l hl hcovered)⟩

/-- The turns that a call still needs at most. -/
def Runner.remaining (r : Runner) : Nat :=
  match r.phase with
  | .waiting => r.migrations.length + 3
  | .created => r.migrations.length + 2
  | .running rest _ => rest.length + 1
  | .done _ => 0

theorem runMigrations_remaining (script : Script D) (fault : Faults) (r : Runner)
    (db : Database D) :
    Runner.remaining { r with phase :=
      (runMigrations script fault r.migrations db r.phase).phase } ≤
      r.remaining - 1 := by
  obtain ⟨migrations, phase⟩ := r
  fun_cases runMigrations script fault migrations db phase <;> simp_all [Runner.remaining]

theorem step_remaining (script : Script D) (s : System D) (i : Nat) (fault : Faults) {j : Nat}
    {r : Runner} (hr : s.runners[j]? = some r) :
    ∃ r', (s.step script i fault).runners[j]? = some r' ∧
      r'.remaining ≤ r.remaining - (if i = j then 1 else 0) := by
  by_cases hij : i = j
  · subst hij
    rw [step_eq hr fault rfl, if_pos rfl]
    refine ⟨_, ?_, runMigrations_remaining script fault r s.db⟩
    rw [List.getElem?_set_self', hr]
    rfl
  · rw [if_neg hij]
    cases hi : s.runners[i]? with
    | none =>
      rw [step_none hi]
      exact ⟨r, hr, le_refl _⟩
    | some other =>
      rw [step_eq hi fault rfl]
      exact ⟨r, by rw [List.getElem?_set_ne hij, hr], le_refl _⟩

theorem run_remaining (script : Script D) (s : System D) (schedule : List (Nat × Faults)) {j : Nat}
    {r : Runner} (hr : s.runners[j]? = some r) :
    ∃ r', (s.run script schedule).runners[j]? = some r' ∧
      r'.remaining ≤ r.remaining - (schedule.map Prod.fst).count j := by
  induction schedule generalizing s r with
  | nil => exact ⟨r, hr, le_refl _⟩
  | cons turn schedule ih =>
    obtain ⟨next, hnext, hle⟩ := step_remaining script s turn.1 turn.2 hr
    obtain ⟨last, hlast, hle'⟩ := ih (s.step script turn.1 turn.2) hnext
    refine ⟨last, hlast, ?_⟩
    rw [List.map_cons, List.count_cons]
    by_cases hj : turn.1 = j
    · rw [if_pos hj] at hle
      rw [if_pos (beq_iff_eq.mpr hj)]
      omega
    · rw [if_neg hj] at hle
      rw [if_neg (fun h => hj (beq_iff_eq.mp h))]
      omega

theorem appliedBy_entry {i : Nat} {v : Int} (hv : v ∈ s.appliedBy i) : ∃ m, (i, m) ∈ s.log ∧
    m.version = v := by
  obtain ⟨⟨j, m⟩, hentry, rfl⟩ := List.mem_map.mp hv
  obtain ⟨hlog, hj⟩ := List.mem_filter.mp hentry
  obtain rfl : j = i := by simpa using hj
  exact ⟨m, hlog, rfl⟩

/-- No version is applied by two callers. -/
theorem Consistent.one_caller (h : Consistent script lists origin s) {i j : Nat} {v : Int}
    (hi : v ∈ s.appliedBy i) (hj : v ∈ s.appliedBy j) : i = j := by
  obtain ⟨m, hm, hmv⟩ := appliedBy_entry hi
  obtain ⟨m', hm', hmv'⟩ := appliedBy_entry hj
  have hnodup : (s.log.map fun entry => entry.2.version).Nodup := by
    have hversions : s.log.map (fun entry => entry.2.version) = s.rows.map (·.version) := by
      rw [h.rows, List.map_map]
      rfl
    rw [hversions, h.versions]
    exact versionsTo_nodup _
  have heq := List.inj_on_of_nodup_map hnodup hm hm' (hmv.trans hmv'.symm)
  exact congrArg Prod.fst heq

/-- What a database with callers looks like at any time. -/
structure Migrated (script : Script D) (lists : List (List Migration)) (origin : D) (s : System D) :
    Prop where
  versions : s.rows.map (·.version) = versionsTo s.rows.length
  recorded : s.rows = s.log.map (·.2.row)
  effects : (s.log.map (·.2)).foldlM (fun data m => script m.sql data) origin = .ok s.db.data
  origins : ∀ entry ∈ s.log, ∃ l, lists[entry.1]? = some l ∧ entry.2 ∈ l
  success : ∀ (i : Nat) (r : Runner) (report : MigrationReport), s.runners[i]? = some r →
    r.phase = .done (.ok report) →
    r.migrations.length ≤ s.rows.length ∧ report.currentVersion = r.migrations.length ∧
      report.appliedVersions = s.appliedBy i
  reports : ∀ (i j : Nat) (r r' : Runner) (report report' : MigrationReport) (v : Int),
    s.runners[i]? = some r → s.runners[j]? = some r' → r.phase = .done (.ok report) →
      r'.phase = .done (.ok report') →
    v ∈ report.appliedVersions → v ∈ report'.appliedVersions → i = j

theorem Consistent.migrated (h : Consistent script lists origin s) :
    Migrated script lists origin s := by
  have success : ∀ (i : Nat) (r : Runner) (report : MigrationReport), s.runners[i]? = some r →
    r.phase = .done (.ok report) →
      r.migrations.length ≤ s.rows.length ∧ report.currentVersion = r.migrations.length ∧
        report.appliedVersions = s.appliedBy i := by
    intro i r report hr hdone
    have hstanding := h.standing i r hr
    rw [Standing, hdone] at hstanding
    exact ⟨hstanding.2.2, hstanding.2.1, hstanding.1⟩
  refine ⟨h.versions, h.rows, h.data, h.known, success, ?_⟩
  intro i j r r' report report' v hr hr' hdone hdone' hv hv'
  rw [(success i r report hr hdone).2.2] at hv
  rw [(success j r' report' hr' hdone').2.2] at hv'
  exact h.one_caller hv hv'

theorem migrations_exactly_once (script : Script D) (lists : List (List Migration)) (origin : D)
    (hcompat : Compatible lists) (schedule : List (Nat × Faults)) :
    let s := (System.start lists origin).run script schedule
    Migrated script lists origin s ∧
      -- a call that fails changes nothing, and it fails for a reason
      (∀ (i : Nat) (fault : Faults) (r r' : Runner) (e : Error), s.runners[i]? = some r →
        (∀ outcome, r.phase ≠ .done outcome) →
        (s.step script i fault).runners[i]? = some r' → r'.phase = .done (.error e) →
        (s.step script i fault).db = s.db ∧ (s.step script i fault).log = s.log ∧
          Failure script fault r.migrations s.rows s.db.data e) ∧
      -- after a success another run of the list applies nothing
      (∀ (i j : Nat) (r r' : Runner) (report : MigrationReport) (later : List (Nat × Faults)),
        s.runners[i]? = some r → r.phase = .done (.ok report) → s.runners[j]? = some r' →
          r'.phase = .waiting → r'.migrations = r.migrations →
          (s.run script later).appliedBy j = []) ∧
      -- every call ends
      ∀ i l, lists[i]? = some l → l.length + 3 ≤ (schedule.map Prod.fst).count i →
        ∃ r outcome, s.runners[i]? = some r ∧ r.phase = .done outcome := by
  have hs := run_consistent (start_consistent script lists origin) hcompat schedule
  refine ⟨hs.migrated, ?_, ?_, ?_⟩
  · intro i fault r r' e hr hrunning hr' he
    exact step_failed hs hcompat hr hrunning hr' he
  · intro i j r r' report later hr hdone hr' hwaiting hsame
    have hcovered := (hs.migrated.success i r report hr hdone).1
    have hnone := hs.standing j r' hr'
    rw [Standing, hwaiting] at hnone
    exact ((run_grows hs hcompat later).2 j r'.migrations (hs.list_of_runner hr')
      (hsame ▸ hcovered)).trans hnone
  · intro i l hl hturns
    have hstart : (System.start lists origin).runners[i]? = some { migrations := l } := by
      rw [System.start, List.getElem?_map, hl]
      rfl
    obtain ⟨r, hr, hle⟩ := run_remaining script _ schedule hstart
    have hzero : r.remaining = 0 := by
      have hfirst : Runner.remaining { migrations := l } = l.length + 3 := rfl
      omega
    obtain ⟨migrations, phase⟩ := r
    cases phase with
    | done outcome => exact ⟨_, outcome, hr, rfl⟩
    | waiting => cases hzero
    | created => cases hzero
    | running rest report => cases hzero

-- Two callers take turns; the second brings one migration more, and a statement of it fails once.
def firstMigration : Migration := ⟨1, text "tables", text "CREATE TABLE t(x)"⟩

def secondMigration : Migration := ⟨2, text "rows", text "INSERT INTO t VALUES (1)"⟩

def sampleLists : List (List Migration) := [[firstMigration], [firstMigration, secondMigration]]

/-- The scripts that ran, in order. -/
def sampleScript : Script (List Bytes) := fun sql data => .ok (data ++ [sql])

def noFault : Faults := fun _ => none

def sampleSchedule : List (Nat × Faults) :=
  [(0, noFault), (1, noFault), (1, noFault), (0, noFault), (1, noFault), (0, noFault), (1, noFault),
    (0, noFault)]

theorem sampleLists_compatible : Compatible sampleLists := by
  intro l hl l' hl' m hm m' hm'
  have hall : ∀ n ∈ sampleLists.flatten, n = firstMigration ∨ n = secondMigration := by
    intro n hn
    simpa [sampleLists] using hn
  have hne : firstMigration.version ≠ secondMigration.version := by decide
  rcases hall m (List.mem_flatten.mpr ⟨l, hl, hm⟩) with rfl | rfl <;>
    rcases hall m' (List.mem_flatten.mpr ⟨l', hl', hm'⟩) with rfl | rfl
  · exact fun _ => ⟨rfl, rfl⟩
  · exact fun h => absurd h hne
  · exact fun h => absurd h.symm hne
  · exact fun _ => ⟨rfl, rfl⟩

theorem migrations_exactly_once_interleaved :
    ((System.start sampleLists []).run sampleScript sampleSchedule).log =
        [(1, firstMigration), (1, secondMigration)] ∧
      Migrated sampleScript sampleLists []
        ((System.start sampleLists []).run sampleScript sampleSchedule) :=
  ⟨by decide +kernel,
    (migrations_exactly_once sampleScript sampleLists [] sampleLists_compatible sampleSchedule).1⟩

end Orangutan.Storage.Migrations
