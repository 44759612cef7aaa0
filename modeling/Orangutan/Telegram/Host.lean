import Orangutan.Lib.Runs
import Orangutan.Telegram.Journal
import Orangutan.Tool.FileRead

/-!
# Runs of the Telegram host

The host saves its state before each step that leaves it: the intake of an update, the answer, each
send and its receipt, the delivery. Every saved state is one that the reader takes, up to the size
of the file and the last cursor.
-/

namespace Orangutan.Telegram

set_option autoImplicit false

open Orangutan.Core Orangutan.Core.Str Orangutan.Storage Orangutan.Lib Relation

/-- The state of `run_impl`; `notice` tells a background completion from an update. -/
structure Host where
  state : State
  notice : Bool := false

/-- What lets the host save its state again. -/
inductive Event
  | verified (bot : Int)
  | noticed (taskId : Bytes)
  | received (update : Value)
  | skipped (update : Value)
  | answered (session : Option TurnId) (answer : Bytes)
  | sending
  | confirmed
  | delivered

/-- The dispatcher refuses a reply of more parts. -/
def maxReplyParts : Nat := 1024 * 1024

/-- The identifier of an update in order. -/
def takeUpdate (s : State) (update : Value) : Option Int :=
  match update.member (text "update_id") with
  | some (.integer n) => if int64 n < s.nextUpdate ∨ int64 n = maxInt64 then none
      else some (int64 n)
  | _ => none

/-- The state that is saved next; `none` where the run ends or the event cannot occur. Which
updates are admitted is left open. -/
def Host.next (h : Host) : Event → Option Host
  | .verified bot =>
    if h.state.bot ≠ [] ∧ h.state.bot ≠ signedDecimal bot then none
    else some { h with state.bot := signedDecimal bot }
  | .noticed taskId =>
    match h.state.pending with
    | some _ => none
    | none =>
      let update : Value := .object [(text "update_id", .integer h.state.nextUpdate)]
      some { state := { h.state with pending := some { update, taskId } }, notice := true }
  | .received update =>
    match h.state.pending, takeUpdate h.state update with
    | none, some _ => some { state := { h.state with pending := some { update } }, notice := false }
    | _, _ => none
  | .skipped update =>
    match h.state.pending, takeUpdate h.state update with
    | none, some id => some { h with state.nextUpdate := id + 1 }
    | _, _ => none
  | .answered session answer =>
    h.state.pending.map fun p =>
      { h with state := { h.state with
        session := session.getD h.state.session,
        pending := some { p with answer := some answer } } }
  | .sending => h.state.pending.map fun p =>
      { h with state.pending := some { p with sendInflight := true } }
  | .confirmed =>
    match h.state.pending with
    | some p =>
      if p.confirmedParts < maxReplyParts then
        some { h with state.pending := some { p with
          confirmedParts := p.confirmedParts + 1, sendInflight := false } }
      else none
    | none => none
  | .delivered =>
    h.state.pending.map fun p =>
      { h with state := { h.state with
        nextUpdate := if h.notice then h.state.nextUpdate else p.updateId + 1
        pending := none } }

/-- Updates come from the parser, and a new session has an identity. -/
def Event.Sound : Event → Prop
  | .received update => Value.Parsed update
  | .skipped update => Value.Parsed update
  | .answered session _ => ∀ id, session = some id → isZeroTurnId id = false
  | _ => True

/-- The host and its directory. -/
structure World where
  host : Host
  files : Files

/-- One state is saved. -/
inductive Step : World → World → Prop
  | persist {w : World} {h : Host} {t : Bytes} (e : Event) (sound : e.Sound)
      (ran : w.host.next e = some h)
      (dumped : journalText h.state = some t) :
        Step w ⟨h, Function.update w.files stateName (some t)⟩

/-- The host runs on what it loads. -/
def Reachable (parser : JsonParser) (user workspace : Bytes) (w : World) : Prop :=
  ∃ files fresh s, (∀ id, fresh = .ok id → isZeroTurnId id = false) ∧
    loadState parser files user workspace fresh = .ok s ∧
    ReflTransGen Step ⟨⟨s, false⟩, files⟩ w

section Invariant

variable {parser : JsonParser} {user workspace : Bytes} {h h' : Host} {s : State} {p : Pending}
  {w w' : World}

/-- The states of the host; an update under way is not the last one. -/
structure Host.Inv (user workspace : Bytes) (h : Host) : Prop where
  valid : h.state.Valid
  user : h.state.user = user
  workspace : h.state.workspace = workspace
  update : h.notice = false → ∀ p, h.state.pending = some p → p.updateId < maxInt64

theorem takeUpdate_some {update : Value} {id : Int} (htake : takeUpdate s update = some id) :
    (∃ n, update.member (text "update_id") = some (.integer n) ∧ id = int64 n) ∧ s.nextUpdate ≤ id ∧
      id < maxInt64 := by
  unfold takeUpdate at htake
  split at htake
  · next n hn =>
    split at htake
    · cases htake
    · next hin =>
      obtain rfl := Option.some.inj htake
      have hrange := (int64_range n).2
      unfold maxInt64 at hin ⊢
      exact ⟨⟨n, hn, rfl⟩, by omega, by omega⟩
  · cases htake

/-- An entry is as good as another one of the same update. -/
theorem Pending.Valid.of_update {q : Pending} {nextUpdate : Int} (hp : p.Valid nextUpdate)
    (hupdate : q.update = p.update) (hparts : q.confirmedParts < 2 ^ 63) : q.Valid nextUpdate where
  parsed := hupdate ▸ hp.parsed
  update := hupdate ▸ hp.update
  ordered := by
    have hid : q.updateId = p.updateId := by
      unfold Pending.updateId
      rw [hupdate]
    exact hid ▸ hp.ordered
  parts := hparts

/-- The invariant goes over to an entry of the same update. -/
theorem inv_entry {q : Pending} {session : TurnId} (hinv : h.Inv user workspace)
    (hp : h.state.pending = some p) (hsession : isZeroTurnId session = false)
    (hupdate : q.update = p.update) (hparts : q.confirmedParts < 2 ^ 63) :
    Host.Inv user workspace { h with state := { h.state with session, pending := some q } } where
  valid :=
    { session := hsession
      cursor := hinv.valid.cursor
      pending := fun r hr => by
        obtain rfl := Option.some.inj hr
        exact (hinv.valid.pending p hp).of_update hupdate hparts }
  user := hinv.user
  workspace := hinv.workspace
  update := fun hnotice r hr => by
    obtain rfl := Option.some.inj hr
    have hid : q.updateId = p.updateId := by
      unfold Pending.updateId
      rw [hupdate]
    exact hid ▸ hinv.update hnotice p hp

theorem next_inv (hinv : h.Inv user workspace) {e : Event} (hsound : e.Sound)
    (hnext : h.next e = some h') :
    h'.Inv user workspace := by
  obtain ⟨hlow, hhigh⟩ := hinv.valid.cursor
  cases e with
  | verified bot =>
    rw [Host.next] at hnext
    split at hnext
    · cases hnext
    · obtain rfl := Option.some.inj hnext
      exact ⟨⟨hinv.valid.session, hinv.valid.cursor, hinv.valid.pending⟩, hinv.user, hinv.workspace,
        hinv.update⟩
  | noticed taskId =>
    rw [Host.next] at hnext
    split at hnext
    · cases hnext
    · obtain rfl := Option.some.inj hnext
      have hid : int64 h.state.nextUpdate = h.state.nextUpdate := int64_eq (by omega) hhigh
      refine ⟨⟨hinv.valid.session, hinv.valid.cursor, fun p hp => ?_⟩, hinv.user, hinv.workspace,
        fun hnotice => (by cases hnotice)⟩
      obtain rfl := Option.some.inj hp
      exact
        { parsed := ⟨List.pairwise_singleton _ _, by decide +kernel, ⟨by omega, by omega⟩, trivial⟩
          update := ⟨_, rfl⟩
          ordered := hid.symm.le
          parts := Nat.two_pow_pos 63 }
  | received update =>
    rw [Host.next] at hnext
    split at hnext
    · next htake =>
      obtain rfl := Option.some.inj hnext
      obtain ⟨⟨n, hn, rfl⟩, hordered, hmax⟩ := takeUpdate_some htake
      have hid : Pending.updateId { update } = int64 n := by
        unfold Pending.updateId
        rw [hn]
      refine ⟨⟨hinv.valid.session, hinv.valid.cursor, fun p hp => ?_⟩, hinv.user, hinv.workspace,
        fun _ p hp => ?_⟩
      · obtain rfl := Option.some.inj hp
        exact ⟨hsound, ⟨n, hn⟩, hid.symm ▸ hordered, Nat.two_pow_pos 63⟩
      · obtain rfl := Option.some.inj hp
        exact hid.symm ▸ hmax
    · cases hnext
  | skipped update =>
    rw [Host.next] at hnext
    split at hnext
    · next id hpending htake =>
      obtain rfl := Option.some.inj hnext
      obtain ⟨-, hordered, hmax⟩ := takeUpdate_some htake
      unfold maxInt64 at hmax
      refine ⟨⟨hinv.valid.session, ⟨by dsimp only; omega, by dsimp only; omega⟩, fun p hp => ?_⟩,
        hinv.user, hinv.workspace, fun _ p hp => ?_⟩
      · rw [hpending] at hp
        cases hp
      · rw [hpending] at hp
        cases hp
    · cases hnext
  | answered session answer =>
    obtain ⟨p, hp, rfl⟩ := Option.map_eq_some_iff.mp hnext
    refine inv_entry hinv hp ?_ rfl (hinv.valid.pending p hp).parts
    cases session with
    | none => exact hinv.valid.session
    | some id => exact hsound id rfl
  | sending =>
    obtain ⟨p, hp, rfl⟩ := Option.map_eq_some_iff.mp hnext
    exact inv_entry hinv hp hinv.valid.session rfl (hinv.valid.pending p hp).parts
  | confirmed =>
    rw [Host.next] at hnext
    split at hnext
    · next p hp =>
      split at hnext
      · next hparts =>
        obtain rfl := Option.some.inj hnext
        unfold maxReplyParts at hparts
        exact inv_entry hinv hp hinv.valid.session rfl (by dsimp only; omega)
      · cases hnext
    · cases hnext
  | delivered =>
    obtain ⟨p, hp, rfl⟩ := Option.map_eq_some_iff.mp hnext
    have hordered := (hinv.valid.pending p hp).ordered
    refine ⟨⟨hinv.valid.session, ?_, fun q hq => (by cases hq)⟩, hinv.user, hinv.workspace,
      fun _ q hq => (by cases hq)⟩
    dsimp only
    split
    · exact hinv.valid.cursor
    · next hnotice =>
      have hmax := hinv.update (Bool.eq_false_iff.mpr hnotice) p hp
      unfold maxInt64 at hmax
      omega

/-- What the reader lets through. -/
theorem decodeValue_ok {json : Value} (hok : decodeValue json = .ok s) :
    isZeroTurnId s.session = false ∧ 0 ≤ s.nextUpdate ∧ s.nextUpdate < 2 ^ 63 := by
  unfold decodeValue at hok
  obtain ⟨spelled, -, hok⟩ := bind_eq_ok.mp hok
  obtain ⟨spelled, -, hok⟩ := bind_eq_ok.mp hok
  split at hok
  · cases hok
  · next session hsession =>
    split at hok
    · cases hok
    · next hzero =>
      obtain ⟨next, -, hok⟩ := bind_eq_ok.mp hok
      split at hok
      · next n =>
        obtain ⟨bot, -, hok⟩ := bind_eq_ok.mp hok
        obtain ⟨bot, -, hok⟩ := bind_eq_ok.mp hok
        obtain ⟨user, -, hok⟩ := bind_eq_ok.mp hok
        obtain ⟨user, -, hok⟩ := bind_eq_ok.mp hok
        obtain ⟨workspace, -, hok⟩ := bind_eq_ok.mp hok
        obtain ⟨workspace, -, hok⟩ := bind_eq_ok.mp hok
        split at hok
        · cases hok
        · next hcursor =>
          have hrange := (int64_range n).2
          obtain ⟨pending, -, hok⟩ := bind_eq_ok.mp hok
          split at hok
          · cases hok
            exact ⟨Bool.eq_false_iff.mpr hzero, Int.not_lt.mp hcursor, hrange⟩
          · obtain ⟨entry, -, hok⟩ := bind_eq_ok.mp hok
            cases hok
            exact ⟨Bool.eq_false_iff.mpr hzero, Int.not_lt.mp hcursor, hrange⟩
      · cases hok

theorem load_inv {files : Files} {fresh : Result TurnId}
    (hfresh : ∀ id, fresh = .ok id → isZeroTurnId id = false)
    (hload : loadState parser files user workspace fresh = .ok s) :
    Host.Inv user workspace ⟨s, false⟩ := by
  have hpending : ∀ {t : State}, isZeroTurnId t.session = false → 0 ≤ t.nextUpdate ∧
    t.nextUpdate < 2 ^ 63 → t.user = user →
      t.workspace = workspace → t.pending = none → Host.Inv user workspace ⟨t, false⟩ := by
    intro t hsession hcursor huser hworkspace hnone
    refine ⟨⟨hsession, hcursor, fun p hp => ?_⟩, huser, hworkspace, fun _ p hp => ?_⟩
    · rw [hnone] at hp
      cases hp
    · rw [hnone] at hp
      cases hp
  unfold loadState at hload
  obtain ⟨bytes, -, hload⟩ := bind_eq_ok.mp hload
  cases bytes with
  | none =>
    obtain ⟨session, hsession, hload⟩ := bind_eq_ok.mp hload
    cases hload
    exact hpending (hfresh session hsession) ⟨Int.le_refl 0, Int.pow_pos (by decide)⟩ rfl rfl rfl
  | some bytes =>
    obtain ⟨t, hdecode, hload⟩ := bind_eq_ok.mp hload
    split at hload
    · cases hload
    · next hsame =>
      cases hload
      push Not at hsame
      obtain ⟨huser, hworkspace, hnone⟩ := hsame
      unfold decodeState at hdecode
      split at hdecode
      · obtain ⟨hsession, hcursor⟩ := decodeValue_ok hdecode
        exact hpending hsession hcursor huser hworkspace (by simpa using hnone)
      · cases hdecode

theorem step_inv (hinv : w.host.Inv user workspace) (hstep : Step w w') :
    w'.host.Inv user workspace := by
  cases hstep with
  | persist e hsound hran _ => exact next_inv hinv hsound hran

theorem reachable_inv (hw : Reachable parser user workspace w) : w.host.Inv user workspace := by
  obtain ⟨files, fresh, s, hfresh, hload, hrun⟩ := hw
  exact run_invariant (I := fun w : World => w.host.Inv user workspace)
    (fun _ _ hinv hstep => step_inv hinv hstep) hrun
    (load_inv hfresh hload)

/-- `state.json` as a restart finds it. -/
def readJournal (parser : JsonParser) (files : Files) : Result (Option State) := do
  let bytes ← files.read stateName maxJournalBytes
  match bytes with
  | none => .ok none
  | some bytes => (decodeState parser bytes).map some

/-- Every saved state is read back exactly if it fits. Then a restart goes on or reports the pending
delivery, and the acknowledgment of its update leaves a journal to start from. -/
theorem journal_reads_back (parser : JsonParser) (hw : Reachable parser user workspace w)
    (hstep : Step w w') :
    (readJournal parser w'.files = .ok (some w'.host.state) ↔ Fits w'.host.state) ∧
    (Fits w'.host.state →
      (∀ fresh, loadState parser w'.files user workspace fresh =
        if w'.host.state.pending.isSome then
          .error
            (.of .conflict
            "state binding mismatch or unresolved pending delivery; inspect state.json")
        else .ok w'.host.state) ∧
      ∀ p, w'.host.state.pending = some p → ∃ files',
        acknowledgePending parser w'.files p.updateId = .ok files' ∧
        ∀ fresh, loadState parser files' user workspace fresh =
          .ok (w'.host.state.retire p.taskId p.updateId)) := by
  have hinv := step_inv (reachable_inv hw) hstep
  have hvalid := hinv.valid
  have huser := hinv.user
  have hworkspace := hinv.workspace
  cases hstep with
  | @persist h t e hsound hran ht =>
    dsimp only at hvalid huser hworkspace ⊢
    subst huser hworkspace
    have hlength := journalText_length ht
    have hdecode := decodeState_iff parser hvalid ht
    refine ⟨⟨fun hread => ?_, fun hfits => ?_⟩,
        fun hfits => ⟨fun fresh => load_written hvalid hfits ht fresh, fun p hp =>
      restart_acknowledged hvalid hfits ht hp⟩⟩
    · unfold readJournal at hread
      by_cases hlong : maxJournalBytes < t.length
      · rw [read_refused hlong] at hread
        cases hread
      · rw [read_written (Nat.not_lt.mp hlong), ok_bind] at hread
        dsimp only at hread
        cases hstate : decodeState parser t with
        | error e =>
          rw [hstate] at hread
          cases hread
        | ok s =>
          rw [hstate] at hread
          injection hread with hread
          obtain rfl := Option.some.inj hread
          exact ⟨by omega, hdecode.mp hstate⟩
    · unfold readJournal
      rw [read_written (hlength ▸ hfits.size), ok_bind]
      dsimp only
      rw [hdecode.mpr hfits.resumable]
      rfl

/-- A journal that does not fit is neither read nor retired. -/
theorem oversized_refused {t : Bytes} {files : Files} (hlong : maxJournalBytes < t.length)
    (update : Int) :
    readJournal parser (Function.update files stateName (some t)) =
      .error (.invalidArgument "application file exceeds byte limit") ∧
    acknowledgePending parser (Function.update files stateName (some t)) update =
      .error (.invalidArgument "application file exceeds byte limit") := by
  unfold readJournal acknowledgePending
  rw [read_refused hlong]
  exact ⟨rfl, rfl⟩

/-- Nor is one whose pending update is the last number. -/
theorem last_update_refused {t : Bytes} {files : Files} (hvalid : s.Valid)
    (ht : journalText s = some t) (hlength : t.length ≤ maxJournalBytes) (hp : s.pending = some p)
    (hmax : p.updateId = maxInt64) (update : Int) :
    readJournal parser (Function.update files stateName (some t)) =
      .error (.parsing "invalid Telegram pending delivery") ∧
    acknowledgePending parser (Function.update files stateName (some t)) update =
      .error (.parsing "invalid Telegram pending delivery") := by
  obtain ⟨hdumps, rfl⟩ := journalText_eq ht
  have hdecode : decodeState parser ((encodeState s).pretty 0 ++ [0x0A]) =
      .error (.parsing "invalid Telegram pending delivery") := by
    unfold decodeState
    rw [parser.parse_pretty _ (encodeState_parsed hvalid hdumps)]
    dsimp only
    rw [decodeValue_encode hvalid, hp]
    dsimp only
    rw [decodePending_encode (hvalid.pending p hp), if_pos hmax, error_bind]
  unfold readJournal acknowledgePending
  rw [read_written hlength, ok_bind, ok_bind]
  dsimp only
  rw [hdecode]
  exact ⟨rfl, rfl⟩

end Invariant

namespace Host

def sampleId : TurnId := ⟨List.replicate 16 1, rfl⟩

/-- A host whose bot is known. -/
def sample (nextUpdate : Int) (pending : Option Pending) : State :=
  { bot := text "5", user := text "42", workspace := text "/workspace", session := sampleId,
    nextUpdate, pending }

def sampleUpdate (id : Int) : Value := .object [(text "update_id", .integer id)]

theorem sampleUpdate_parsed {id : Int} (hlow : 0 ≤ id) (hhigh : id < 2 ^ 63) :
    Value.Parsed (sampleUpdate id) :=
  ⟨List.pairwise_singleton _ _, by decide +kernel, ⟨by omega, by omega⟩, trivial⟩

/-- The files after a state is saved. -/
def saved (s : State) (files : Files) : Files :=
    Function.update files stateName (some ((encodeState s).pretty 0 ++ [0x0A]))

theorem step_saved {h h' : Host} {files : Files} (e : Event) (hsound : e.Sound)
    (hran : h.next e = some h') (hdumps : Value.dumps (encodeState h'.state) = true) :
    Step ⟨h, files⟩ ⟨h', saved h'.state files⟩ :=
  .persist e hsound hran (by rw [journalText, if_pos hdumps])

theorem sample_started : Reachable prettyParser (text "42") (text "/workspace")
    ⟨⟨sample 0 none, false⟩, saved (sample 0 none) fun _ => none⟩ := by
  refine ⟨fun _ => none, .ok sampleId, { sample 0 none with bot := [] }, fun id hid => ?_, rfl,
    .single ?_⟩
  · cases hid
    decide +kernel
  · exact step_saved (.verified 5) trivial rfl (by decide +kernel)

end Host

open Host

def Host.sampleFiles : Files :=
    saved (sample 0 (some { update := sampleUpdate 7 })) (saved (sample 0 none) fun _ => none)

theorem Host.sample_received : Step ⟨⟨sample 0 none, false⟩, saved (sample 0 none) fun _ => none⟩
    ⟨⟨sample 0 (some { update := sampleUpdate 7 }), false⟩, sampleFiles⟩ :=
  step_saved (.received (sampleUpdate 7)) (sampleUpdate_parsed (by decide) (by decide)) rfl
    (by decide +kernel)

/-- The first update is saved, read back and retired. -/
theorem journal_reads_back_update :
    readJournal prettyParser sampleFiles =
      .ok (some (sample 0 (some { update := sampleUpdate 7 }))) ∧
    ∃ files', acknowledgePending prettyParser sampleFiles 7 = .ok files' ∧
      ∀ fresh, loadState prettyParser files' (text "42") (text "/workspace") fresh =
        .ok (sample 8 none) := by
  have hreads := journal_reads_back prettyParser sample_started sample_received
  have hfits : Fits (sample 0 (some { update := sampleUpdate 7 })) :=
    ⟨by decide +kernel, fun p hp => by cases hp; exact ⟨by decide +kernel, rfl⟩⟩
  obtain ⟨files', hacknowledged, hrestart⟩ := (hreads.2 hfits).2 { update := sampleUpdate 7 } rfl
  have hid : Pending.updateId { update := sampleUpdate 7 } = 7 := by decide +kernel
  rw [hid] at hacknowledged
  refine ⟨hreads.1.mpr hfits, files', hacknowledged, fun fresh => ?_⟩
  rw [hrestart fresh, hid]
  rfl

/-- The state after a long answer, all of letters. -/
def Host.sampleAnswered (n : Nat) : State :=
    sample 0 (some { update := sampleUpdate 7, answer := some (List.replicate n 0x61) })

theorem Host.sampleAnswered_dumps (n : Nat) :
    Value.dumps (encodeState (sampleAnswered n)) = true := by
  have hanswer : isValidUtf8 (List.replicate n 0x61) = true :=
    Tool.isValidUtf8_ascii fun b hb => by
      rw [List.eq_of_mem_replicate hb]
      decide
  have hfields : Value.dumps (encodeState (sampleAnswered n)) =
      (Value.dumps (encodeState (sampleAnswered 0)) && isValidUtf8 (List.replicate n 0x61)) := by
    have hempty : Value.dumps (encodeState (sampleAnswered 0)) = true := by decide +kernel
    rw [hempty, hanswer]
    unfold sampleAnswered sample encodeState encodePending
    simp only [Option.map_some, Option.getD_some, if_true, List.nil_append, List.cons_append,
      Value.dumps, Value.dumpsFields, hanswer, Bool.and_true]
    decide +kernel
  rw [hfields, hanswer]
  decide +kernel

/-- An answer of two mebibytes and a background notice at the last cursor are saved, and neither
journal is read or retired. -/
theorem journal_refused :
    (∃ w w', Reachable prettyParser (text "42") (text "/workspace") w ∧ Step w w' ∧
      w'.host.state = sampleAnswered (2 * 1024 * 1024) ∧
      readJournal prettyParser w'.files =
        .error (.invalidArgument "application file exceeds byte limit") ∧
      acknowledgePending prettyParser w'.files 7 =
        .error (.invalidArgument "application file exceeds byte limit")) ∧
    (∃ w w', Reachable prettyParser (text "42") (text "/workspace") w ∧ Step w w' ∧
      w'.host.state = sample maxInt64
        (some { update := sampleUpdate maxInt64, taskId := formatTurnIdHex sampleId }) ∧
      readJournal prettyParser w'.files = .error (.parsing "invalid Telegram pending delivery") ∧
      acknowledgePending prettyParser w'.files maxInt64 =
        .error (.parsing "invalid Telegram pending delivery")) := by
  obtain ⟨files, fresh, s, hfresh, hload, hrun⟩ := sample_started
  constructor
  · have hreached := hrun.tail sample_received
    have hanswered : Step ⟨⟨sample 0 (some { update := sampleUpdate 7 }), false⟩, sampleFiles⟩
        ⟨⟨sampleAnswered (2 * 1024 * 1024), false⟩,
          saved (sampleAnswered (2 * 1024 * 1024)) sampleFiles⟩ :=
      step_saved (.answered none (List.replicate (2 * 1024 * 1024) 0x61))
        (fun id hid => by cases hid) rfl (sampleAnswered_dumps _)
    have htext : journalText (sampleAnswered (2 * 1024 * 1024)) =
        some ((encodeState (sampleAnswered (2 * 1024 * 1024))).pretty 0 ++ [0x0A]) := by
      rw [journalText, if_pos (sampleAnswered_dumps _)]
    have hsize := answer_size (s := sampleAnswered (2 * 1024 * 1024)) rfl rfl
    rw [List.length_replicate] at hsize
    have hlong : maxJournalBytes <
        ((encodeState (sampleAnswered (2 * 1024 * 1024))).pretty 0 ++ [0x0A]).length := by
      rw [journalText_length htext]
      exact hsize
    exact ⟨_, _, ⟨files, fresh, s, hfresh, hload, hreached⟩, hanswered, rfl,
      oversized_refused hlong 7⟩
  · have hskipped : Step ⟨⟨sample 0 none, false⟩, saved (sample 0 none) fun _ => none⟩
        ⟨⟨sample maxInt64 none, false⟩,
          saved (sample maxInt64 none) (saved (sample 0 none) fun _ => none)⟩ :=
      step_saved (.skipped (sampleUpdate (maxInt64 - 1)))
        (sampleUpdate_parsed (by decide) (by decide)) rfl (by decide +kernel)
    have hreached : Reachable prettyParser (text "42") (text "/workspace") _ :=
      ⟨files, fresh, s, hfresh, hload, hrun.tail hskipped⟩
    have hnoticed : Step ⟨⟨sample maxInt64 none, false⟩,
      saved (sample maxInt64 none) (saved (sample 0 none) fun _ => none)⟩
        ⟨⟨sample maxInt64
          (some { update := sampleUpdate maxInt64, taskId := formatTurnIdHex sampleId }), true⟩,
          _⟩ :=
      step_saved (.noticed (formatTurnIdHex sampleId)) trivial rfl (by decide +kernel)
    have hinv := step_inv (reachable_inv hreached) hnoticed
    exact ⟨_, _, hreached, hnoticed, rfl,
      last_update_refused hinv.valid (by rw [journalText, if_pos]; decide +kernel)
      (by decide +kernel) rfl (by decide +kernel) maxInt64⟩

end Orangutan.Telegram
