import Orangutan.Io.QuietRuns
import Orangutan.Tool.FileChangeContract

/-!
# What FileEdit makes of a file

The occurrences of the old string are counted without overlap. An edit of a single match is
ambiguous exactly if all occurrences overlap the first one and there is more than one.
-/

namespace Orangutan.Tool

set_option autoImplicit false

open Orangutan.Core Orangutan.Io Orangutan.Lib Orangutan.Lib.Fallible

-- The operations of `size_t`: nothing if the value wraps.
def checkedSub (a b : Nat) : Option Nat := if b ≤ a then some (a - b) else none

def checkedMul (a b : Nat) : Option Nat := if a * b < 2 ^ 64 then some (a * b) else none

def checkedAdd (a b : Nat) : Option Nat := if a + b < 2 ^ 64 then some (a + b) else none

def tooLarge : Error := .invalidArgument "FileEdit: replacement output is too large"

/-- `replacement_size`, operation by operation. -/
def replacementSizeChecked (sourceSize oldSize newSize replacementCount : Nat) :
    Option (Result Nat) :=
  if newSize ≤ oldSize then do
    let shrink ← checkedSub oldSize newSize
    let total ← checkedMul shrink replacementCount
    let size ← checkedSub sourceSize total
    pure (.ok size)
  else do
    let delta ← checkedSub newSize oldSize
    let available ← checkedSub (2 ^ 64 - 1) sourceSize
    if available / delta < replacementCount then pure (.error tooLarge)
    else do
      let grown ← checkedMul delta replacementCount
      let size ← checkedAdd sourceSize grown
      pure (.ok size)

theorem checkedSub_eq {a b : Nat} (h : b ≤ a) : checkedSub a b = some (a - b) := if_pos h

theorem checkedMul_eq {a b : Nat} (h : a * b < 2 ^ 64) : checkedMul a b = some (a * b) := if_pos h

theorem checkedAdd_eq {a b : Nat} (h : a + b < 2 ^ 64) : checkedAdd a b = some (a + b) := if_pos h

/-- The room that is left decides whether the result has a size. -/
theorem room_iff {source delta count : Nat} (hdelta : 0 < delta) (hsource : source < 2 ^ 64) :
    (2 ^ 64 - 1 - source) / delta < count ↔ 2 ^ 64 ≤ source + delta * count := by
  rw [Nat.div_lt_iff_lt_mul hdelta, Nat.mul_comm]
  omega

/-- For a list with `n` replaced occurrences no operation wraps, and only a result that has no
size fails. -/
theorem replacementSizeChecked_eq {old new s t : Bytes} {n : Nat} (h : Replaces old new s t n)
    (hs : s.length < 2 ^ 64) :
    replacementSizeChecked s.length old.length new.length n =
      some (if t.length < 2 ^ 64 then .ok t.length else .error tooLarge) := by
  have hlength := h.length_eq
  unfold replacementSizeChecked
  by_cases hle : new.length ≤ old.length
  · have hmul : (old.length - new.length) * n + n * new.length = n * old.length := by
      rw [Nat.mul_comm, ← Nat.mul_add, Nat.sub_add_cancel hle]
    have hsize : s.length - (old.length - new.length) * n = t.length := by omega
    rw [if_pos hle, if_pos (by omega), checkedSub_eq hle, ← hsize]
    simp only [Option.bind_eq_bind, Option.bind_some]
    rw [checkedMul_eq (by omega)]
    simp only [Option.bind_some]
    rw [checkedSub_eq (by omega)]
    rfl
  · have hgrow : 0 < new.length - old.length := by omega
    have hmul : (new.length - old.length) * n + n * old.length = n * new.length := by
      rw [Nat.mul_comm, ← Nat.mul_add, Nat.sub_add_cancel (by omega)]
    have hsize : s.length + (new.length - old.length) * n = t.length := by omega
    rw [if_neg hle, checkedSub_eq (by omega), checkedSub_eq (by omega)]
    simp only [Option.bind_eq_bind, Option.bind_some]
    by_cases hfits : t.length < 2 ^ 64
    · have hroom : ¬(2 ^ 64 - 1 - s.length) / (new.length - old.length) < n := by
        rw [room_iff hgrow hs]
        omega
      rw [if_neg hroom, if_pos hfits, ← hsize, checkedMul_eq (by omega)]
      simp only [Option.bind_some]
      rw [checkedAdd_eq (by omega)]
      rfl
    · have hroom : (2 ^ 64 - 1 - s.length) / (new.length - old.length) < n := by
        rw [room_iff hgrow hs]
        omega
      rw [if_pos hroom, if_neg hfits]
      rfl

theorem replacementSize_eq_checked {source old new count : Nat} {result : Result Nat}
    (h : replacementSizeChecked source old new count = some result) :
      replacementSize source old new count = result := by
  unfold replacementSizeChecked at h
  unfold replacementSize
  by_cases hle : new ≤ old
  · rw [if_pos hle] at h ⊢
    simp only [Option.bind_eq_bind, Option.bind_eq_some_iff, checkedSub, checkedMul] at h
    obtain ⟨shrink, hshrink, total, htotal, size, hsize, h⟩ := h
    simp only [Option.ite_none_right_eq_some, Option.some.injEq] at hshrink htotal hsize
    obtain ⟨-, rfl⟩ := hshrink
    obtain ⟨-, rfl⟩ := htotal
    obtain ⟨-, rfl⟩ := hsize
    exact Option.some.inj h
  · rw [if_neg hle] at h ⊢
    simp only [Option.bind_eq_bind, Option.bind_eq_some_iff, checkedSub] at h
    obtain ⟨delta, hdelta, available, havailable, h⟩ := h
    simp only [Option.ite_none_right_eq_some, Option.some.injEq] at hdelta havailable
    obtain ⟨-, rfl⟩ := hdelta
    obtain ⟨-, rfl⟩ := havailable
    by_cases hroom : (2 ^ 64 - 1 - source) / (new - old) < count
    · rw [if_pos hroom] at h ⊢
      exact Option.some.inj h
    · rw [if_neg hroom] at h ⊢
      simp only [Option.bind_eq_some_iff, checkedMul, checkedAdd] at h
      obtain ⟨grown, hgrown, size, hsize, h⟩ := h
      simp only [Option.ite_none_right_eq_some, Option.some.injEq] at hgrown hsize
      obtain ⟨-, rfl⟩ := hgrown
      obtain ⟨-, rfl⟩ := hsize
      exact Option.some.inj h

section Edits

variable (sha256 : Bytes → Bytes) (displayRoot : Nat → Bytes) (stops : Stops)

/-- What is written when all matches are replaced. -/
def replaceAll (request : FileEditRequest) (contents : Bytes) : Bytes :=
  applyReplacements contents request.oldString request.newString
    (findOccurrences contents request.oldString)

theorem replaces_iff (request : FileEditRequest) (contents t : Bytes) (n : Nat) :
    Replaces request.oldString request.newString contents t n ↔
      t = replaceAll request contents ∧
        n = (findOccurrences contents request.oldString).length := by
  have hreplaces := applyReplacements_replaces request.oldString_nonempty request.newString contents
  constructor
  · exact fun h => h.unique hreplaces
  · rintro ⟨rfl, rfl⟩
    exact hreplaces

/-- An edit that succeeds has replaced every match of the version that it began with. -/
def EditReplacesAll (request : FileEditRequest) (w w' : World) : Prop :=
  ∃ v, Commits w (some v) (replaceAll request v.content) w' ∧
    (replaceAll request v.content).length ≤ request.maxBytes

theorem editContents_eq {request : FileEditRequest} {path contents edited : Bytes} {applied : Nat}
    (h : editContents request path contents = .ok (edited, applied)) :
    edited = replaceAll request contents ∧ edited.length ≤ request.maxBytes := by
  obtain ⟨n, hreplaces, -, -, hfits⟩ := editContents_ok h
  exact ⟨((replaces_iff request contents edited n).mp hreplaces).1, hfits⟩

/-- All matches are replaced from left to right, the size is computed without wrapping, and what is
written fits. -/
theorem file_edit_replacement (request : FileEditRequest) :
    (∀ contents t n, Replaces request.oldString request.newString contents t n ↔
      t = replaceAll request contents ∧ n = (findOccurrences contents request.oldString).length) ∧
    (∀ contents : Bytes, contents.length < 2 ^ 64 →
      let size := if (replaceAll request contents).length < 2 ^ 64
        then .ok (replaceAll request contents).length
        else .error tooLarge
      let count := (findOccurrences contents request.oldString).length
      replacementSizeChecked contents.length request.oldString.length request.newString.length
        count = some size ∧
        replacementSize contents.length request.oldString.length request.newString.length count =
          size) ∧
    ∀ (ctx : DispatchContext) (w : World), w.Sound →
      AllOrNothing (fun _ => False) (EditReplacesAll request w) w
        (runIn (fileEditHandler sha256 displayRoot stops request ctx) w) := by
  refine ⟨replaces_iff request, fun contents hlength => ?_, fun ctx w hw => ?_⟩
  · have hreplaces := (replaces_iff request contents _ _).mpr ⟨rfl, rfl⟩
    have hchecked := replacementSizeChecked_eq hreplaces hlength
    exact ⟨hchecked, replacementSize_eq_checked hchecked⟩
  · refine (fileEditHandler_writes sha256 displayRoot stops request ctx hw).weaken ?_
    rintro w' ⟨_, _, _, v, edited, -, -, -, -, hcommits, -, ⟨applied, hedit⟩, -⟩
    obtain ⟨rfl, hfits⟩ := editContents_eq hedit
    exact ⟨v, hcommits, hfits⟩

/-- The edit replaces the only occurrence there is. -/
def ReplacesOnly (request : FileEditRequest) (contents edited : Bytes) : Prop :=
  ∃ k, (∀ j, OccursAt request.oldString contents j ↔ j = k) ∧
    edited = contents.take k ++ request.newString ++ contents.drop (k + request.oldString.length)

/-- The contents are within the cap and have more than one occurrence, all of them overlap the first
one, and the result of replacing it fits. -/
def Ambiguous (request : FileEditRequest) (contents : Bytes) : Prop :=
  contents.length ≤ request.maxBytes ∧
    contents.length - request.oldString.length + request.newString.length ≤ request.maxBytes ∧
    ∃ k j, OccursAt request.oldString contents k ∧ OccursAt request.oldString contents j ∧ j ≠ k ∧
      ∀ i, OccursAt request.oldString contents i → k ≤ i ∧ i < k + request.oldString.length

/-- An edit without `replace_all` that goes through replaces the first of overlapping occurrences.
-/
theorem editContents_one {request : FileEditRequest} (hone : request.replaceAll = false)
    (hmax : request.maxBytes < 2 ^ 64) (path contents edited : Bytes) :
    (∃ applied, editContents request path contents = .ok (edited, applied)) ↔
      Replaces request.oldString request.newString contents edited 1 ∧
        edited.length ≤ request.maxBytes := by
  constructor
  · rintro ⟨applied, h⟩
    obtain ⟨n, hreplaces, -, hunique, hfits⟩ := editContents_ok h
    rw [hunique hone] at hreplaces
    exact ⟨hreplaces, hfits⟩
  · rintro ⟨hreplaces, hfits⟩
    obtain ⟨rfl, hcount⟩ := (replaces_iff request contents edited 1).mp hreplaces
    have hlength := hreplaces.length_eq
    have hsome : findOccurrences contents request.oldString ≠ [] := by
      intro hnone
      rw [hnone] at hcount
      cases hcount
    have hsize : replacementSize contents.length request.oldString.length
      request.newString.length 1 =
        .ok (replaceAll request contents).length := by
      unfold replacementSize
      split
      · have hsub : contents.length - (request.oldString.length - request.newString.length) * 1 =
            (replaceAll request contents).length := by omega
        rw [hsub]
      · rename_i hgrow
        have hroom : ¬(2 ^ 64 - 1 - contents.length) /
            (request.newString.length - request.oldString.length) < 1 := by
          rw [room_iff (by omega) (by omega)]
          omega
        have hadd : contents.length + (request.newString.length - request.oldString.length) * 1 =
            (replaceAll request contents).length := by omega
        rw [if_neg hroom, hadd]
    refine ⟨(findOccurrences contents request.oldString).length, ?_⟩
    unfold editContents
    dsimp only
    rw [if_neg hsome, if_neg (by omega), ← hcount, hsize]
    dsimp only
    rw [if_neg (by omega)]
    rfl

/-- Ambiguous contents are edited. -/
theorem Ambiguous.edited {request : FileEditRequest} {contents : Bytes}
    (h : Ambiguous request contents) (hone : request.replaceAll = false)
    (hmax : request.maxBytes < 2 ^ 64) (path : Bytes) :
    ∃ edited applied, editContents request path contents = .ok (edited, applied) := by
  obtain ⟨-, hfits, k, j, hk, -, -, hnear⟩ := h
  have hreplaces : Replaces request.oldString request.newString contents
      (contents.take k ++ request.newString ++ contents.drop (k + request.oldString.length)) 1 :=
    Replaces.one_iff.mpr ⟨k, hk, rfl, hnear⟩
  have hlength := hreplaces.length_eq
  have hinside := OccursAt.length_le hk
  exact ⟨_, (editContents_one hone hmax path contents _).mpr ⟨hreplaces, by omega⟩⟩

/-- What is made of contents within the cap replaces the only occurrence exactly if they are not
ambiguous. -/
theorem replacesOnly_iff {request : FileEditRequest} (hone : request.replaceAll = false)
    (hmax : request.maxBytes < 2 ^ 64) {path contents edited : Bytes} {applied : Nat}
    (hedit : editContents request path contents = .ok (edited, applied)) (hcap : contents.length ≤
      request.maxBytes) :
    ReplacesOnly request contents edited ↔ ¬Ambiguous request contents := by
  constructor
  · rintro ⟨only, hunique, -⟩ ⟨-, -, k, j, hk, hj, hne, -⟩
    exact hne (((hunique j).mp hj).trans ((hunique k).mp hk).symm)
  · intro hclear
    obtain ⟨hreplaces, hfits⟩ :=
      (editContents_one hone hmax path contents edited).mp ⟨applied, hedit⟩
    have hlength := hreplaces.length_eq
    obtain ⟨k, hk, hedited, hnear⟩ := Replaces.one_iff.mp hreplaces
    have hinside := OccursAt.length_le hk
    refine ⟨k, fun j => ⟨fun hj => ?_, fun hj => hj ▸ hk⟩, hedited⟩
    by_contra hne
    exact hclear ⟨hcap, by omega, k, j, hk, hj, hne, hnear⟩

/-- Nothing keeps an edit from its scan: the path leads to a regular file, which has the expected
version, nothing is cancelled, nobody interferes and no call fails. -/
structure Undisturbed (request : FileEditRequest) (ctx : DispatchContext) (v : Version)
    (w : World) : Prop where
  quiet : Quiet v w
  temps : w.temps = []
  regular : v.kind = .regular
  size : v.content.length < 2 ^ 63
  running : stops = {}
  resolved : ∃ resolved, ctx.resolvedPath = some resolved ∧
    validateAnchoredPath resolved.authorityRelativePath = .ok () ∧
    pathComponents resolved.authorityRelativePath ≠ [] ∧
    ∀ expected, request.expectedVersion = some expected →
      versionToken sha256 resolved.absolutePath (fingerprintFromStat v.stamp) = expected

/-- An edit that has replaced the only occurrence in the version that it began with. -/
def EditReplacesOnly (request : FileEditRequest) (w w' : World) : Prop :=
  ∃ v edited, Commits w (some v) edited w' ∧ ReplacesOnly request v.content edited

variable {sha256 displayRoot stops}

/-- An undisturbed edit begins with the file that is there. -/
theorem Undisturbed.begins {request : FileEditRequest} {ctx : DispatchContext} {v : Version}
    {w w' : World} (h : Undisturbed sha256 stops request ctx v w)
    (hwrites : EditWrites sha256 displayRoot request ctx w w') :
    ∃ path edited applied, Commits w (some v) edited w' ∧ v.content.length ≤ request.maxBytes ∧
      editContents request path v.content = .ok (edited, applied) := by
  obtain ⟨resolved, m, u, v', edited, hresolved, hbegin, -, htarget, hcommits, hcap,
    ⟨applied, hedit⟩, -⟩ := hwrites
  obtain ⟨resolved', hresolved', hvalid, hname, -⟩ := h.resolved
  obtain rfl := Option.some.inj (hresolved.symm.trans hresolved')
  obtain ⟨name, hlast⟩ := Option.isSome_iff_exists.mp (List.getLast?_isSome.mpr hname)
  rw [beginFileMutation_quiet h.regular hvalid hlast false w h.quiet] at hbegin
  cases hbegin
  obtain rfl := Option.some.inj (h.quiet.2.symm.trans htarget)
  exact ⟨resolved.absolutePath, edited, applied, hcommits, hcap, hedit⟩

/-- The expected version is that of the file. -/
theorem checkBeforeEdit_quiet {path : Bytes} {expected : Option Bytes} {v : Version}
    {file : ReadOnlyFile} (hregular : v.kind = .regular) (hfd : v.holds file.fd = true)
    (hversion : ∀ token, expected = some token →
    versionToken sha256 path (fingerprintFromStat v.stamp) = token) :
    Gives v (checkBeforeEdit sha256 path file expected) () := by
  unfold checkBeforeEdit
  cases expected with
  | none => exact Gives.pure
  | some token =>
    have hattempt : Gives v (attempt (computeFileFingerprint file))
        (.ok (fingerprintFromStat v.stamp)) := by
      intro w hw
      rw [attempt, runIn_of, computeFileFingerprint_quiet hregular hfd w hw]
    refine Gives.bind hattempt ?_
    dsimp only
    rw [compareToken, if_neg (not_not.mpr (hversion token rfl).symm)]
    exact Gives.pure

/-- An undisturbed edit of contents within the cap goes through if there is something to write. -/
theorem fileEditHandler_quiet {request : FileEditRequest} {ctx : DispatchContext} {v : Version}
    {w : World} (h : Undisturbed sha256 stops request ctx v w)
    (hcap : v.content.length ≤ request.maxBytes) (hpositive : 0 < request.maxBytes)
    (hedit : ∀ path, ∃ edited applied,
    editContents request path v.content = .ok (edited, applied)) :
    ∃ out w', runIn (fileEditHandler sha256 displayRoot stops request ctx) w = (.ok out, w') := by
  obtain ⟨resolved, hresolved, hvalid, hname, hversion⟩ := h.resolved
  obtain ⟨name, hlast⟩ := Option.isSome_iff_exists.mp (List.getLast?_isSome.mpr hname)
  have hbegin := @beginFileMutation_quiet v (displayRoot resolved.authority) _ h.regular hvalid name
    hlast false
  generalize displayRoot resolved.authority ++ [slash] ++ resolved.authorityRelativePath =
    display at hbegin
  have hopen := @openExisting_quiet v { name, display, captured := some v.stamp } h.regular rfl
  have hcheck := @checkBeforeEdit_quiet sha256 resolved.absolutePath request.expectedVersion v
    { fd := v.descriptor, displayPath := display } h.regular v.holds_descriptor hversion
  obtain ⟨read, hread, hwhole, htext⟩ :=
    @readFile_quiet v { fd := v.descriptor, displayPath := display } h.regular
    v.holds_descriptor h.size request.maxBytes hpositive hcap
  obtain ⟨edited, applied, hedited⟩ := hedit resolved.absolutePath
  obtain ⟨w', hwritten⟩ :=
    @writeText_quiet v { name, display, captured := some v.stamp } h.regular rfl edited
    (editOptions sha256 request resolved.absolutePath) rfl rfl rfl (fun verify hverify => by
      obtain ⟨expected, hexpected, rfl⟩ := Option.map_eq_some_iff.mp hverify
      rw [expectedVersionVerifier, if_pos (hversion expected hexpected)]) w h.quiet h.temps
  rw [fileEditHandler, hresolved, h.running]
  dsimp only
  rw [runIn_bind, hbegin w h.quiet]
  dsimp only
  rw [runIn_bind, hopen w h.quiet]
  dsimp only
  rw [runIn_bind, hcheck w h.quiet]
  dsimp only
  rw [runIn_bind, runBlocking, if_neg Bool.false_ne_true, hread w h.quiet]
  dsimp only
  rw [editAndWrite, if_neg (by rw [hwhole]; exact Bool.false_ne_true), htext, hedited]
  dsimp only
  rw [runIn_bind, runBlocking, if_neg Bool.false_ne_true, hwritten]
  exact ⟨_, w', rfl⟩

variable (sha256 displayRoot stops)

/-- An edit without `replace_all` that succeeds replaces the only occurrence exactly if the version
that it began with is not ambiguous; and an edit that nothing disturbs keeps to that, or leaves
the file alone, exactly if the file is not ambiguous. -/
theorem file_edit_single_iff (request : FileEditRequest) (hone : request.replaceAll = false)
    (hmax : request.maxBytes < 2 ^ 64) (ctx : DispatchContext) (w : World) (hw : w.Sound) :
    AllOrNothing (fun _ => False)
      (fun w' => ∃ v edited, Commits w (some v) edited w' ∧
        (ReplacesOnly request v.content edited ↔ ¬Ambiguous request v.content))
      w (runIn (fileEditHandler sha256 displayRoot stops request ctx) w) ∧
    ∀ v, Undisturbed sha256 stops request ctx v w →
      (AllOrNothing (fun _ => False) (EditReplacesOnly request w) w
          (runIn (fileEditHandler sha256 displayRoot stops request ctx) w) ↔
        ¬Ambiguous request v.content) := by
  have hwrites := fileEditHandler_writes sha256 displayRoot stops request ctx hw
  refine ⟨hwrites.weaken ?_,
    fun v hv => ⟨fun honly hambiguous => ?_, fun hclear => hwrites.weaken fun w' h => ?_⟩⟩
  · rintro w' ⟨_, _, _, v, edited, -, -, -, -, hcommits, hcap, ⟨applied, hedit⟩, -⟩
    exact ⟨v, edited, hcommits, replacesOnly_iff hone hmax hedit hcap⟩
  · have hoccurs : 0 < request.maxBytes := by
      obtain ⟨hcap, -, k, j, hk, -⟩ := hambiguous
      have hinside := OccursAt.length_le hk
      have hold := List.length_pos_iff.mpr request.oldString_nonempty
      omega
    obtain ⟨out, w', hrun⟩ :=
      @fileEditHandler_quiet sha256 displayRoot stops request ctx v w hv hambiguous.1 hoccurs
      (hambiguous.edited hone hmax)
    rw [hrun] at hwrites honly
    obtain ⟨path, edited, applied, hcommits, hcap, hedit⟩ := hv.begins hwrites
    obtain ⟨v', edited', hcommits', hreplaced⟩ := honly
    obtain ⟨hversion, rfl⟩ := hcommits'.unique hcommits
    obtain rfl := Option.some.inj hversion
    exact (replacesOnly_iff hone hmax hedit hcap).mp hreplaced hambiguous
  · obtain ⟨path, edited, applied, hcommits, hcap, hedit⟩ := hv.begins h
    exact ⟨v, edited, hcommits, (replacesOnly_iff hone hmax hedit hcap).mpr hclear⟩

end Edits

-- Both matches are replaced while others write the file.
theorem file_edit_replacement_crossed :
    replacementSize 11 3 1 2 = .ok 7 ∧ ∃ w', EditReplacesAll editOne crossedWorld w' := by
  obtain ⟨-, hsize, hrun⟩ := file_edit_replacement id (fun _ => text "/w") {} editOne
  constructor
  · exact (hsize (text "one two one") (by decide)).2
  · have hedited := hrun noteContext crossedWorld crossedWorld_sound
    rcases hresult : runIn (fileEditHandler id (fun _ => text "/w") {} editOne noteContext)
      crossedWorld with ⟨e | out, w'⟩
    · have hok :
          (runIn (fileEditHandler id (fun _ => text "/w") {} editOne noteContext)
          crossedWorld).1.isOk = true := by
        decide +kernel
      rw [hresult] at hok
      cases hok
    · rw [hresult] at hedited
      exact ⟨w', hedited⟩

-- A pair stands in a triple twice, but only one match is found.
def tripleWorld : World :=
  let first : Version := { content := text "aaa", inode := 7, mtime := { seconds := 1 } }
  { target := some first, script := [], seen := [first] }

def editPair : FileEditRequest where
  oldString := text "aa"
  newString := text "b"
  oldString_nonempty := by decide

theorem pair_ambiguous : Ambiguous editPair (text "aaa") := by
  refine ⟨by decide, by decide, 0, 1, ⟨[], text "a", rfl, rfl⟩, ⟨text "a", [], rfl, rfl⟩, by decide,
    fun i hi => ⟨Nat.zero_le i, ?_⟩⟩
  have hbound : i + 2 ≤ 3 := OccursAt.length_le hi
  change i < 0 + 2
  omega

theorem tripleWorld_sound : tripleWorld.Sound := by
  refine ⟨by decide, fun v hv => ?_⟩
  cases hv
  rfl

theorem tripleWorld_undisturbed : Undisturbed id {} editPair noteContext
    { content := text "aaa", inode := 7, mtime := { seconds := 1 } } tripleWorld :=
  ⟨⟨rfl, rfl⟩, rfl, rfl, by decide, rfl, _, rfl, by decide, by decide,
    fun expected hexpected => by cases hexpected⟩

theorem file_edit_single_iff_pair :
    ¬AllOrNothing (fun _ => False) (EditReplacesOnly editPair tripleWorld) tripleWorld
      (runIn (fileEditHandler id (fun _ => text "/w") {} editPair noteContext) tripleWorld) :=
        fun honly =>
  ((file_edit_single_iff id (fun _ => text "/w") {} editPair rfl (by decide) noteContext tripleWorld
    tripleWorld_sound).2 _ tripleWorld_undisturbed).mp honly pair_ambiguous

/-- The file is changed although the old string stands at two offsets. -/
theorem ambiguous_edit_goes_through :
    editPair.replaceAll = false ∧ OccursAt editPair.oldString (text "aaa") 0 ∧
      OccursAt editPair.oldString (text "aaa") 1 ∧
      tripleWorld.target.map (·.content) = some (text "aaa") ∧
      (runIn (fileEditHandler id (fun _ => text "/w") {} editPair noteContext) tripleWorld).1.isOk =
        true ∧
      (runIn (fileEditHandler id (fun _ => text "/w") {} editPair noteContext)
        tripleWorld).2.target.map (·.content) =
        some (text "ba") :=
  ⟨rfl, ⟨[], text "a", rfl, rfl⟩, ⟨text "a", [], rfl, rfl⟩, rfl, by decide +kernel,
    by decide +kernel⟩

end Orangutan.Tool
