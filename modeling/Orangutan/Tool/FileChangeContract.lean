import Orangutan.Io.StagedWrites
import Orangutan.Lib.Replacements
import Orangutan.Tool.FileChanges

/-!
# What a file tool does to its target

An edit or a write that succeeds has replaced the version that the mutation captured; one that
fails has left the target to the others.
-/

namespace Orangutan.Tool

set_option autoImplicit false

open Orangutan.Core Orangutan.Io Orangutan.Lib Orangutan.Lib.Fallible

section Replacement

variable {needle : Bytes}

theorem findFirst_none (hneedle : needle ≠ []) {s : Bytes} (h : findFirst needle s = none) :
    ¬needle <:+: s := by
  induction s with
  | nil => simpa using hneedle
  | cons b rest ih =>
    unfold findFirst at h
    split at h
    · cases h
    · rename_i hhead
      rintro hinfix
      rcases List.infix_cons_iff.mp hinfix with hprefix | hrest
      · exact hhead (List.isPrefixOf_iff_prefix.mpr hprefix)
      · exact ih (Option.map_eq_none_iff.mp h) hrest

theorem findFirst_some {s : Bytes} {k : Nat} (h : findFirst needle s = some k) :
    s = s.take k ++ needle ++ s.drop (k + needle.length) ∧
      FirstAt needle (s.take k) (s.drop (k + needle.length)) ∧
      k + needle.length ≤ s.length := by
  induction s generalizing k with
  | nil =>
    unfold findFirst at h
    split at h
    · rename_i hnil
      cases h
      subst hnil
      exact ⟨rfl, fun p q _ => Nat.zero_le _, le_rfl⟩
    · cases h
  | cons b rest ih =>
    unfold findFirst at h
    split at h
    · rename_i hhead
      cases h
      obtain ⟨after, hafter⟩ := List.isPrefixOf_iff_prefix.mp hhead
      have hdrop : (b :: rest).drop (0 + needle.length) = after := by
        rw [← hafter, Nat.zero_add, List.drop_left]
      rw [hdrop]
      refine ⟨?_, fun p q _ => Nat.zero_le _, ?_⟩
      · simpa using hafter.symm
      · rw [← hafter, List.length_append]
        omega
    · rename_i hhead
      obtain ⟨k', hk', rfl⟩ := Option.map_eq_some_iff.mp h
      obtain ⟨hsplit, hfirst, hbound⟩ := ih hk'
      have hdrop : (b :: rest).drop (k' + 1 + needle.length) = rest.drop (k' + needle.length) := by
        rw [Nat.add_right_comm, List.drop_succ_cons]
      rw [hdrop, List.take_succ_cons]
      refine ⟨?_, ?_, ?_⟩
      · rw [List.cons_append, List.cons_append, ← hsplit]
      · intro p q hpq
        rw [List.cons_append, List.cons_append, ← hsplit] at hpq
        rcases p with _ | ⟨c, p⟩
        · exact absurd (List.isPrefixOf_iff_prefix.mpr ⟨q, by simpa using hpq.symm⟩) hhead
        · rw [List.cons_append, List.cons_append, List.cons.injEq] at hpq
          have hle := hfirst p q (hsplit.symm.trans hpq.2)
          simpa using hle
      · rw [List.length_cons]
        omega

theorem stitch_replaces (hneedle : needle ≠ []) (new haystack : Bytes) (rounds start : Nat)
    (hstart : start ≤ haystack.length) (hrounds : haystack.length < start + rounds) :
    Replaces needle new (haystack.drop start)
      (stitch haystack needle new start (occurrencesFrom haystack needle rounds start))
      (occurrencesFrom haystack needle rounds start).length := by
  induction rounds generalizing start with
  | zero => omega
  | succ rounds ih =>
    unfold occurrencesFrom
    split
    · rename_i hnone
      exact .done (findFirst_none hneedle hnone)
    · rename_i k hk
      obtain ⟨hsplit, hfirst, hbound⟩ := findFirst_some hk
      have hpositive : 0 < needle.length := List.length_pos_iff.mpr hneedle
      rw [List.length_drop] at hbound
      rw [List.drop_drop, ← Nat.add_assoc] at hsplit hfirst
      have hrest := ih (start + k + needle.length) (by omega) (by omega)
      have hwhole := Replaces.next hfirst hrest
      rw [← hsplit] at hwhole
      simpa only [stitch, List.length_cons, Nat.add_sub_cancel_left] using hwhole

theorem applyReplacements_replaces (hneedle : needle ≠ []) (new contents : Bytes) :
    Replaces needle new contents
      (applyReplacements contents needle new (findOccurrences contents needle))
      (findOccurrences contents needle).length :=
  stitch_replaces hneedle new contents (contents.length + 1) 0 (Nat.zero_le _) (by omega)

/-- The size that is computed is the size of the result. -/
theorem replacementSize_ok {old new s t : Bytes} {n size : Nat} (h : Replaces old new s t n)
    (hsize : replacementSize s.length old.length new.length n = .ok size) : size = t.length := by
  have hlength := h.length_eq
  unfold replacementSize at hsize
  split at hsize
  · rename_i hle
    cases hsize
    rw [Nat.mul_comm, Nat.mul_sub]
    have hmul : n * new.length ≤ n * old.length := Nat.mul_le_mul_left n hle
    omega
  · split at hsize
    · cases hsize
    · rename_i hlt _
      cases hsize
      rw [Nat.mul_comm, Nat.mul_sub]
      have hmul : n * old.length ≤ n * new.length := Nat.mul_le_mul_left n (by omega)
      omega

/-- The edit of a version's content. -/
def Edits (request : FileEditRequest) (contents edited : Bytes) : Prop :=
  ∃ n, Replaces request.oldString request.newString contents edited n ∧ 0 < n ∧
    (request.replaceAll = false → n = 1) ∧ edited.length ≤ request.maxBytes

theorem editContents_ok {request : FileEditRequest} {path contents edited : Bytes} {applied : Nat}
    (h : editContents request path contents = .ok (edited, applied)) :
      Edits request contents edited := by
  have hreplaces := applyReplacements_replaces request.oldString_nonempty request.newString contents
  unfold editContents at h
  dsimp only at h
  split at h
  · cases h
  · rename_i hsome
    split at h
    · cases h
    · rename_i hunique
      split at h
      · cases h
      · rename_i size hsize
        split at h
        · cases h
        · rename_i hfits
          cases h
          have hpositive : 0 < (findOccurrences contents request.oldString).length :=
            List.length_pos_iff.mpr hsome
          refine ⟨_, hreplaces, hpositive, ?_, ?_⟩
          · intro hone
            simp only [hone, Bool.false_eq_true, not_false_eq_true, and_true] at hunique
            omega
          · rw [← replacementSize_ok hreplaces hsize]
            omega

end Replacement

section Tools

variable (sha256 : Bytes → Bytes) (displayRoot : Nat → Bytes) (stops : Stops)

theorem calm_runBlocking {α : Type} (stopped : Bool) {operation : Sys α}
    (h : Along Calm operation) :
    Along Calm (runBlocking stopped operation) := by
  unfold runBlocking
  split
  · exact Along.throw
  · exact h

theorem calm_compareToken (message : String) (path expected : Bytes) (pre : FileFingerprint) :
    Along Calm (match compareToken sha256 message path expected pre with
      | .error e => throw e
      | .ok () => pure () : Sys Unit) := by
  split
  · exact Along.throw
  · exact Along.pure

theorem calm_checkBeforeEdit (path : Bytes) (file : ReadOnlyFile) (expected : Option Bytes) :
    Along Calm (checkBeforeEdit sha256 path file expected) := by
  unfold checkBeforeEdit
  split
  · exact Along.pure
  · refine Along.bind (calm_computeFileFingerprint file).attempt fun pre => ?_
    split
    · exact Along.throw
    · exact calm_compareToken sha256 _ _ _ _

theorem calm_checkBeforeWrite (path : Bytes) (mutation : FileMutation) (expected : Option Bytes) :
    Along Calm (checkBeforeWrite sha256 path mutation expected) := by
  unfold checkBeforeWrite
  split
  · exact Along.pure
  · refine Along.bind (Along.bind (calm_openExisting mutation) calm_computeFileFingerprint).attempt
      fun pre => ?_
    split
    · exact Along.throw
    · exact calm_compareToken sha256 _ _ _ _

/-- An expected version can be checked only of a target that was captured. -/
theorem checkBeforeWrite_ok {path expected : Bytes} {mutation : FileMutation} {w w' : World}
    (h : runIn (checkBeforeWrite sha256 path mutation (some expected)) w = (.ok (), w')) :
    mutation.captured ≠ none := by
  intro hnone
  obtain ⟨pre, w₁, hpre, h⟩ := runIn_bind_ok h
  cases hpre
  rw [runIn_bind, FileMutation.openExisting, hnone] at h
  cases h

theorem verifier_ok {path expected : Bytes} {fingerprint : FileFingerprint}
    (h : expectedVersionVerifier sha256 path expected fingerprint = .ok ()) :
    versionToken sha256 path fingerprint = expected := by
  unfold expectedVersionVerifier at h
  split at h
  · assumption
  · cases h

/-- The edit has replaced the version that was the target when the mutation began. -/
def EditCommits (request : FileEditRequest) (ctx : DispatchContext) (w w' : World) : Prop :=
  ∃ resolved m u v edited, ctx.resolvedPath = some resolved ∧
    runIn (beginFileMutation (displayRoot resolved.authority) resolved.authorityRelativePath false)
      w = (.ok m, u) ∧
    m.captured = some v.stamp ∧ u.target = some v ∧ Commits w (some v) edited w' ∧
      Edits request v.content edited ∧
    ∀ expected, request.expectedVersion = some expected →
      versionToken sha256 resolved.absolutePath (fingerprintFromStat v.stamp) = expected

/-- The write has replaced the version that was the target when the mutation began, or nothing. -/
def WriteCommits (request : FileWriteRequest) (ctx : DispatchContext) (w w' : World) : Prop :=
  ∃ resolved m u version, ctx.resolvedPath = some resolved ∧
    runIn (beginFileMutation (displayRoot resolved.authority) resolved.authorityRelativePath
      request.options.createParentDirectories) w = (.ok m, u) ∧
    version.map Version.stamp = m.captured ∧ (∀ v, version = some v → u.target = some v) ∧
    (request.options.mode = .failIfExists → version = none) ∧ Commits w version request.content w' ∧
    ∀ expected, request.expectedVersion = some expected →
      ∃ v, version = some v ∧ versionToken sha256 resolved.absolutePath
        (fingerprintFromStat v.stamp) = expected

/-- The same, with what the edit makes of the version. -/
def EditWrites (request : FileEditRequest) (ctx : DispatchContext) (w w' : World) : Prop :=
  ∃ resolved m u v edited, ctx.resolvedPath = some resolved ∧
    runIn (beginFileMutation (displayRoot resolved.authority) resolved.authorityRelativePath false)
      w = (.ok m, u) ∧
    m.captured = some v.stamp ∧ u.target = some v ∧ Commits w (some v) edited w' ∧
    v.content.length ≤ request.maxBytes ∧
      (∃ applied, editContents request resolved.absolutePath v.content = .ok (edited, applied)) ∧
    ∀ expected, request.expectedVersion = some expected →
      versionToken sha256 resolved.absolutePath (fingerprintFromStat v.stamp) = expected

variable {sha256 displayRoot} in
theorem EditWrites.commits {request : FileEditRequest} {ctx : DispatchContext} {w w' : World}
    (h : EditWrites sha256 displayRoot request ctx w w') :
      EditCommits sha256 displayRoot request ctx w w' := by
  obtain ⟨resolved, m, u, v, edited, hresolved, hbegin, hcaptured, htarget, hcommits, -,
    ⟨applied, hedit⟩, hverified⟩ := h
  exact ⟨resolved, m, u, v, edited, hresolved, hbegin, hcaptured, htarget, hcommits,
    editContents_ok hedit, hverified⟩

/-- What an edit leaves behind that fails before it has read the file, or after. -/
theorem editAndWrite_commits {request : FileEditRequest} {path : Bytes} {m : FileMutation}
    {read : ReadTextResult} {w : World} (hw : w.Sound)
    (hknown : ∀ s, m.captured = some s → Known s w) :
    AllOrNothing (fun _ => False)
      (fun w' => ∃ version edited, Commits w version edited w' ∧
        version.map Version.stamp = m.captured ∧
        read.truncated = false ∧
          (∃ applied, editContents request path read.text = .ok (edited, applied)) ∧
        ∀ expected v, request.expectedVersion = some expected → version = some v →
          versionToken sha256 path (fingerprintFromStat v.stamp) = expected)
      w (runIn (editAndWrite sha256 stops request path m read) w) := by
  unfold editAndWrite
  by_cases htruncated : read.truncated = true
  · rw [if_pos htruncated]
    exact AllOrNothing.throw
  · rw [if_neg htruncated]
    rcases hedit : editContents request path read.text with e | ⟨edited, applied⟩
    · exact AllOrNothing.throw
    · have hwrite := @writeText_commits m (editOptions sha256 request path) w edited hw hknown
        (by simp [editOptions])
      dsimp only
      refine AllOrNothing.then_pure (P := fun w' => ∃ version, Commits w version edited w' ∧
        Io.Accepted m (editOptions sha256 request path) version) ?_ ?_
      · rw [runBlocking]
        by_cases hstopped : stops.write = true
        · rw [if_pos hstopped]
          exact AllOrNothing.throw
        · rw [if_neg hstopped]
          rcases hrun : runIn (m.writeText edited (editOptions sha256 request path)) w with ⟨e | _,
            w'⟩
          · rw [hrun] at hwrite
            exact fun _ => hwrite fun hparent => by cases hparent
          · rw [hrun] at hwrite
            obtain ⟨version, hcommits, haccepted, -⟩ := hwrite
            exact ⟨version, hcommits, haccepted⟩
      · rintro w' ⟨version, hcommits, hcaptured, hverified⟩
        refine ⟨version, edited, hcommits, hcaptured, by simpa using htruncated, ⟨applied, rfl⟩, ?_⟩
        intro expected v hexpected hv
        exact verifier_ok sha256 (hverified _ (by rw [editOptions, hexpected]; rfl) v hv)

theorem fileEditHandler_writes (request : FileEditRequest) (ctx : DispatchContext) {w : World}
    (hw : w.Sound) :
    AllOrNothing (fun _ => False) (EditWrites sha256 displayRoot request ctx w) w
      (runIn (fileEditHandler sha256 displayRoot stops request ctx) w) := by
  rw [fileEditHandler]
  rcases hresolved : ctx.resolvedPath with _ | resolved
  · exact AllOrNothing.throw
  · refine AllOrNothing.bind (calm_beginFileMutation _ _ false) fun m u hbegin hcalm => ?_
    have hu := hcalm.1.sound hw
    have hknown := known_beginFileMutation _ _ hw hbegin
    refine AllOrNothing.bind (calm_openExisting m) fun file w₁ hopen hopened => ?_
    obtain ⟨v, hcaptured, hv, hfd⟩ := openExisting_ok hu hknown hopen
    refine AllOrNothing.bind (calm_checkBeforeEdit sha256 _ file _) fun _ w₂ _ hchecked => ?_
    refine AllOrNothing.bind (calm_runBlocking _ (calm_readFile file _)) fun read w₃ hread hafter =>
      ?_
    have hcalm₃ := hopened.trans (hchecked.trans hafter)
    have hwritten := @editAndWrite_commits sha256 stops request resolved.absolutePath m read w₃
      (hcalm₃.1.sound hu) (fun s hs => (hknown s hs).follows hcalm₃.1)
    rcases hrun : runIn (editAndWrite sha256 stops request resolved.absolutePath m read)
      w₃ with ⟨e | out, w'⟩
    · rw [hrun] at hwritten
      exact hwritten
    · rw [hrun] at hwritten
      obtain ⟨version, edited, hcommits, hsame, hwhole, hedits, hverified⟩ := hwritten
      obtain ⟨v', rfl, hstamp⟩ := Option.map_eq_some_iff.mp (hsame.trans hcaptured)
      obtain ⟨htarget, hlog⟩ := hcommits.captured m hu hknown hcalm₃ hsame rfl
      -- nothing has happened between the opening and the end of the read
      have hsplit := hopened.1.log_split (hchecked.trans hafter).1 hlog
      have hsplit' := hchecked.1.log_split hafter.1 hsplit.2
      have hv' : v = v' := by
        have hkept := hopened.1.target_of_log hsplit.1
        rw [hv, htarget] at hkept
        exact Option.some.inj hkept
      subst hv'
      have htext : read.text = v.content ∧ v.content.length ≤ request.maxBytes := by
        rw [runBlocking] at hread
        split at hread
        · cases hread
        · have htarget₂ : w₂.target = some v := (hchecked.1.target_of_log hsplit'.1).trans hv
          have hsteady := steady_readFile hfd request.maxBytes w₂ htarget₂
          rw [hread] at hsteady
          exact hsteady hsplit'.2 read rfl hwhole
      rw [htext.1] at hedits
      refine ⟨resolved, m, u, v, edited, hresolved, hbegin, hcaptured, htarget, ?_, htext.2,
        hedits, ?_⟩
      · exact (hcalm.trans hcalm₃).commits hcommits
      · exact fun expected hexpected => hverified expected v hexpected rfl

theorem writeOptions_mode (request : FileWriteRequest) (path : Bytes) :
    (writeOptions sha256 request path).mode = request.options.mode := by
  unfold writeOptions
  split
  · split <;> rfl
  · rfl

theorem fileWriteHandler_commits (request : FileWriteRequest) (ctx : DispatchContext) {w : World}
    (hw : w.Sound) (hmode : request.options.mode ≠ .append) :
    AllOrNothing (fun e => e.message = "failed to sync anchored parent directory")
      (WriteCommits sha256 displayRoot request ctx w) w
      (runIn (fileWriteHandler sha256 displayRoot stops request ctx) w) := by
  rw [fileWriteHandler]
  rcases hresolved : ctx.resolvedPath with _ | resolved
  · exact AllOrNothing.throw
  · refine AllOrNothing.bind (calm_beginFileMutation _ _ _) fun m u hbegin hcalm => ?_
    have hu := hcalm.1.sound hw
    have hknown := known_beginFileMutation _ _ hw hbegin
    refine AllOrNothing.bind (calm_checkBeforeWrite sha256 _ m _) fun _ w₁ hcheck hchecked => ?_
    have hoptions : (writeOptions sha256 request resolved.absolutePath).mode =
        request.options.mode :=
      writeOptions_mode sha256 request _
    have hwrite := @writeText_commits m (writeOptions sha256 request resolved.absolutePath) w₁
      request.content
      (hchecked.1.sound hu) (fun s hs => (hknown s hs).follows hchecked.1) (hoptions ▸ hmode)
    refine AllOrNothing.then_pure (P := WriteCommits sha256 displayRoot request ctx w) ?_
      fun w' h => h
    rw [runBlocking]
    by_cases hstopped : stops.write = true
    · rw [if_pos hstopped]
      exact AllOrNothing.throw
    · rw [if_neg hstopped]
      rcases hrun : runIn (m.writeText request.content
        (writeOptions sha256 request resolved.absolutePath)) w₁ with
        ⟨e | _, w'⟩
      · rw [hrun] at hwrite
        exact fun hother => hwrite fun _ => hother
      · rw [hrun] at hwrite
        obtain ⟨version, hcommits, ⟨hsame, hverified⟩, hexclusive⟩ := hwrite
        refine ⟨resolved, m, u, version, hresolved, hbegin, hsame, ?_, ?_,
          hcalm.commits (hchecked.commits hcommits), ?_⟩
        · exact fun v hv => (hcommits.captured m hu hknown hchecked hsame hv).1
        · exact fun h => hexclusive (hoptions ▸ h)
        · intro expected hexpected
          rw [hexpected] at hcheck
          rcases version with _ | v
          · exact absurd hsame.symm (checkBeforeWrite_ok sha256 hcheck)
          · have htruncate : request.options.mode = .truncate := by
              rcases hchosen : request.options.mode with _ | _ | _
              · rfl
              · exact absurd hchosen hmode
              · exact absurd (hexclusive (hoptions.trans hchosen)) (by simp)
            refine ⟨v, rfl, verifier_ok sha256 (hverified _ ?_ v rfl)⟩
            simp [writeOptions, hexpected, request.atomic_iff.mpr htruncate]

/-- File changes are all-or-nothing, and replace only the version that they began with. -/
theorem file_changes_contract (ctx : DispatchContext) (w : World) (hw : w.Sound) :
    (∀ request : FileEditRequest,
      AllOrNothing (fun _ => False) (EditCommits sha256 displayRoot request ctx w) w
        (runIn (fileEditHandler sha256 displayRoot stops request ctx) w)) ∧
    ∀ request : FileWriteRequest, request.options.mode ≠ .append →
      AllOrNothing (fun e => e.message = "failed to sync anchored parent directory")
        (WriteCommits sha256 displayRoot request ctx w) w
        (runIn (fileWriteHandler sha256 displayRoot stops request ctx) w) :=
  ⟨fun request => (fileEditHandler_writes sha256 displayRoot stops request ctx hw).weaken
    fun _ => EditWrites.commits, fun request hmode =>
    fileWriteHandler_commits sha256 displayRoot stops request ctx hw hmode⟩

end Tools

/-- A world in which others write the file before we look at it. -/
def crossedWorld : World :=
  let first : Version := { content := text "one", inode := 7, mtime := { seconds := 1 } }
  let second : Version := { content := text "one two one", inode := 7, mtime := { seconds := 2 } }
  { target := some first, script := [{ others := [some second] }], seen := [first] }

theorem crossedWorld_sound : crossedWorld.Sound := by
  constructor
  · decide
  · rintro v hv
    cases hv
    rfl

def editOne : FileEditRequest where
  oldString := text "one"
  newString := text "1"
  replaceAll := true
  oldString_nonempty := by decide

def writeThree : FileWriteRequest where
  content := text "three"
  options := { atomic := true }
  atomic_iff := by decide

def noteContext : DispatchContext where
  rules := []
  now := 0
  resolvedPath := some
    { authority := 0, authorityRelativePath := text "note", absolutePath := text "/w/note",
      relativePath := text "note"
      displayPath := text "note", inputPathHash := [], workspaceRootHash := [] }

theorem file_changes_contract_crossed :
    (∃ w', EditCommits id (fun _ => text "/w") editOne noteContext crossedWorld w') ∧
      ∃ w', WriteCommits id (fun _ => text "/w") writeThree noteContext crossedWorld w' := by
  obtain ⟨hedit, hwrite⟩ :=
    file_changes_contract id (fun _ => text "/w") {} noteContext crossedWorld crossedWorld_sound
  have hedited := hedit editOne
  have hwritten := hwrite writeThree (by decide)
  constructor
  · rcases hrun : runIn (fileEditHandler id (fun _ => text "/w") {} editOne noteContext)
      crossedWorld with ⟨e | out, w'⟩
    · have hok :
          (runIn (fileEditHandler id (fun _ => text "/w") {} editOne noteContext)
          crossedWorld).1.isOk = true := by
        decide +kernel
      rw [hrun] at hok
      cases hok
    · rw [hrun] at hedited
      exact ⟨w', hedited⟩
  · rcases hrun : runIn (fileWriteHandler id (fun _ => text "/w") {} writeThree noteContext)
      crossedWorld with ⟨e | out, w'⟩
    · have hok : (runIn (fileWriteHandler id (fun _ => text "/w") {} writeThree noteContext)
          crossedWorld).1.isOk = true := by
        decide +kernel
      rw [hrun] at hok
      cases hok
    · rw [hrun] at hwritten
      exact ⟨w', hwritten⟩

end Orangutan.Tool
