import Orangutan.Io.SteadyReads

/-!
# A mutation commits once or leaves nothing

The new content is staged in a temporary sibling. The target gets it by one call, after a look
that has found what the mutation captured; whatever fails before leaves no sibling behind.
-/

namespace Orangutan.Io

set_option autoImplicit false

open Orangutan.Core Orangutan.Lib Orangutan.Lib.Fallible

section Beginning

variable (root relativePath : Bytes)

theorem calm_requireRegularFile (fd : Descriptor) :
    Along Calm (requireRegularFile fd root relativePath) := by
  refine Along.bind ((idle_fstat _ _).check _) fun status => ?_
  split
  · exact Along.throw
  · exact Along.pure

theorem idle_inspect : Idle fun turn w => (plain turn w |>.1.map fun _ => turn.isLink, w) :=
    fun _ _ => rfl

theorem calm_openOrCreateParent (create : Bool) :
    Along Calm (openOrCreateParent root relativePath create) := by
  refine Along.bind idle_plain.syscall fun opened => ?_
  split
  · exact Along.pure
  · split
    · refine Along.bind idle_plain.syscall fun made => ?_
      split
      · exact idle_plain.syscall
      · split
        · exact Along.throw
        · exact idle_plain.syscall
    · exact Along.pure

theorem calm_refuseParent (failure : Failure) :
    Along Calm (refuseParent root relativePath failure) := by
  unfold refuseParent
  split
  · refine Along.bind idle_inspect.syscall fun component => ?_
    split <;> exact Along.throw
  · exact Along.throw

theorem calm_openParent (create : Bool) : Along Calm (openParent root relativePath create) := by
  refine Along.bind (calm_openOrCreateParent root relativePath create) fun opened => ?_
  split
  · exact Along.pure
  · exact calm_refuseParent root relativePath _

theorem calm_openParents (create : Bool) (components : List Bytes) :
    Along Calm (openParents root relativePath create components) := by
  induction components with
  | nil => exact Along.pure
  | cons component rest ih =>
      exact Along.bind (calm_openParent root relativePath create) fun _ => ih

theorem calm_snapshotTarget : Along Calm (snapshotTarget root relativePath) := by
  refine Along.bind (idle_openTarget false).syscall fun opened => ?_
  split
  · split
    · exact Along.throw
    · exact Along.pure
  · refine Along.bind ((idle_fstat _ _).check _) fun status => ?_
    split
    · exact Along.throw
    · exact Along.bind (calm_requireRegularFile root relativePath _) fun _ => Along.pure

theorem calm_beginFileMutation (create : Bool) :
    Along Calm (beginFileMutation root relativePath create) := by
  unfold beginFileMutation
  split
  · exact Along.throw
  · exact Along.throw
  · refine Along.bind (idle_plain.check _) fun _ => ?_
    refine Along.bind (calm_openParents root relativePath create _) fun _ => ?_
    exact Along.bind (calm_snapshotTarget root relativePath) fun _ => Along.pure

/-- The stamp of the snapshot is known from then on. -/
theorem known_snapshotTarget {w w' : World} {s : Stamp} (hw : w.Sound)
    (h : runIn (snapshotTarget root relativePath) w = (.ok (some s), w')) : Known s w' := by
  obtain ⟨opened, w₁, hopen, h⟩ := runIn_bind_ok h
  rw [runIn_syscall, idle_openTarget] at hopen
  cases hopen
  split at h
  · split at h <;> cases h
  · rename_i fd hfd
    obtain ⟨status, w₂, hstat, h⟩ := runIn_bind_ok h
    rw [runIn_check, idle_fstat] at hstat
    split at hstat
    · rename_i status' hstatus
      cases hstat
      have hknown := (observed hw hfd hstatus).1
      split at h
      · cases h
      · obtain ⟨_, w₃, hregular, h⟩ := runIn_bind_ok h
        cases h
        exact hknown.follows ((calm_requireRegularFile root relativePath fd).run hregular).1
    · cases hstat

theorem known_beginFileMutation {create : Bool} {w w' : World} {m : FileMutation} (hw : w.Sound)
    (h : runIn (beginFileMutation root relativePath create) w = (.ok m, w')) :
    ∀ s, m.captured = some s → Known s w' := by
  unfold beginFileMutation at h
  split at h
  · cases h
  · cases h
  · obtain ⟨_, w₁, hdup, h⟩ := runIn_bind_ok h
    obtain ⟨_, w₂, hparents, h⟩ := runIn_bind_ok h
    obtain ⟨captured, w₃, hsnapshot, h⟩ := runIn_bind_ok h
    cases h
    rintro s rfl
    have hcalm := (idle_plain.check _).run hdup
    have hcalm' := (calm_openParents root relativePath create _).run hparents
    exact known_snapshotTarget root relativePath (hcalm'.1.sound (hcalm.1.sound hw)) hsnapshot

end Beginning

theorem calm_openExisting (m : FileMutation) : Along Calm m.openExisting := by
  unfold FileMutation.openExisting
  split
  · exact Along.throw
  · refine Along.bind ((idle_openTarget true).check _) fun fd => ?_
    refine Along.bind ((idle_fstat _ _).check _) fun status => ?_
    split
    · exact Along.throw
    · exact Along.pure

/-- The file that is opened is the target, and has what was captured. -/
theorem openExisting_ok {m : FileMutation} {w w' : World} {file : ReadOnlyFile} (hw : w.Sound)
    (hknown : ∀ s, m.captured = some s → Known s w) (h : runIn m.openExisting w = (.ok file, w')) :
    ∃ v, m.captured = some v.stamp ∧ w'.target = some v ∧ v.holds file.fd = true := by
  unfold FileMutation.openExisting at h
  split at h
  · cases h
  · rename_i captured hcaptured
    obtain ⟨fd, w₁, hopen, h⟩ := runIn_bind_ok h
    rw [runIn_check, idle_openTarget] at hopen
    split at hopen
    · rename_i fd' hfd
      cases hopen
      obtain ⟨status, w₂, hstat, h⟩ := runIn_bind_ok h
      rw [runIn_check, idle_fstat] at hstat
      split at hstat
      · rename_i status' hstatus
        cases hstat
        split at h
        · cases h
        · rename_i hsame
          cases h
          have hstamp : status.stamp = captured := not_not.mp hsame
          obtain ⟨v, hv, hholds, rfl⟩ :=
            (observed hw hfd hstatus).2 (hstamp ▸ hknown captured hcaptured)
          exact ⟨v, hcaptured.trans (congrArg some hstamp.symm), hv, hholds⟩
      · cases hstat
    · cases hopen

/-- Of ours there is one new sibling, with this content. -/
def Staged (w₀ : World) (name content : Bytes) (w : World) : Prop :=
  Follows w₀ w ∧ w.temps = ⟨name, content⟩ :: w₀.temps ∧ ∀ temp ∈ w₀.temps, temp.name ≠ name

theorem follows_temps (w : World) (temps : List TempFile) : Follows w { w with temps } :=
    ⟨[], by simp [World.stamps]⟩

section Staged

variable {w₀ w w' : World} {name content : Bytes}

theorem Staged.follows (h : Staged w₀ name content w) (hcalm : Calm w w') :
    Staged w₀ name content w' :=
  ⟨h.1.trans hcalm.1, hcalm.2.trans h.2.1, h.2.2⟩

theorem filter_staged (h : ∀ temp ∈ w₀.temps, temp.name ≠ name) :
    w₀.temps.filter (fun temp => temp.name ≠ name) = w₀.temps := by
  apply List.filter_eq_self.mpr
  intro temp htemp
  simpa using h temp htemp

theorem Staged.remove (h : Staged w₀ name content w) : Calm w₀ (w.removeTemp name) := by
  obtain ⟨hfollows, htemps, hnew⟩ := h
  refine ⟨hfollows.trans (follows_temps w _), ?_⟩
  simpa [World.removeTemp, htemps] using filter_staged hnew

theorem Staged.unlink (h : Staged w₀ name content w) : Calm w₀ (unlinkTemp name w) :=
  (h.follows (calm_takeTurn w)).remove

theorem Staged.tempContent (h : Staged w₀ name content w) : w.tempContent name = content := by
  simp [World.tempContent, h.2.1]

theorem Staged.write (h : Staged w₀ name content w) (piece : Bytes) :
    Staged w₀ name (content ++ piece) (w.writeTemp name piece) := by
  obtain ⟨hfollows, htemps, hnew⟩ := h
  refine ⟨hfollows.trans (follows_temps w _), ?_, hnew⟩
  have hothers : w₀.temps.map (fun temp =>
      if temp.name = name then { temp with content := temp.content ++ piece } else temp) =
        w₀.temps := by
    conv_rhs => rw [← List.map_id w₀.temps]
    apply List.map_congr_left
    intro temp htemp
    exact if_neg (hnew temp htemp)
  simp [World.writeTemp, htemps, hothers]

end Staged

theorem createTemp_cases (turn : Turn) (w : World) :
    (∃ failure, createTemp turn w = (.error failure, w)) ∨
      (createTemp turn w = (.ok turn.name, { w with temps := ⟨turn.name, []⟩ :: w.temps }) ∧
        ∀ temp ∈ w.temps, temp.name ≠ turn.name) := by
  unfold createTemp
  split
  · exact .inl ⟨_, rfl⟩
  · split
    · exact .inl ⟨_, rfl⟩
    · rename_i hnew
      right
      constructor
      · rfl
      · simpa using hnew

theorem createSiblingTemp_staged (w₀ : World) (display : Bytes) (attempts : Nat) :
    Triple (Calm w₀) (createSiblingTemp display attempts) fun r w =>
      match r with
      | .ok name => Staged w₀ name [] w
      | .error _ => Calm w₀ w := by
  induction attempts with
  | zero => exact Triple.throw fun w hw => hw
  | succ attempts ih =>
    intro w hw
    have hcalm := hw.trans (calm_takeTurn w)
    rw [createSiblingTemp, runIn_bind, runIn_syscall]
    rcases createTemp_cases w.takeTurn.1 w.takeTurn.2 with ⟨failure, hfailed⟩ | ⟨hmade, hnew⟩
    · rw [hfailed]
      by_cases hother : failure.errno ≠ eexist
      · simpa only [if_pos hother, runIn_throw] using hcalm
      · simpa only [if_neg hother] using ih _ hcalm
    · rw [hmade]
      rw [hcalm.2] at hnew ⊢
      exact ⟨hcalm.1.trans (follows_temps _ _), rfl, hnew⟩

theorem writeTemp_cases (name chunk : Bytes) (turn : Turn) (w : World) :
    (∃ failure, writeTemp name chunk turn w = (.error failure, w)) ∨
      writeTemp name chunk turn w = (.ok (min chunk.length turn.amount),
        w.writeTemp name (chunk.take turn.amount)) := by
  unfold writeTemp
  split
  · exact .inl ⟨_, rfl⟩
  · exact .inr rfl

theorem writeTemp_error {name chunk : Bytes} {turn : Turn} {w : World} {failure : Failure}
    (h : (writeTemp name chunk turn w).1 = .error failure) :
      (writeTemp name chunk turn w).2 = w := by
  rcases writeTemp_cases name chunk turn w with ⟨failure', hfailed⟩ | hwritten
  · rw [hfailed]
  · rw [hwritten] at h
    cases h

/-- A write takes some of the chunk. -/
theorem retrying_writeTemp (w₀ : World) (name content chunk : Bytes) (failed : Failure → Error) :
    Triple (Staged w₀ name content) (retrying (writeTemp name chunk) failed) fun r w =>
      match r with
      | .ok count => ∃ n, count = min chunk.length n ∧ Staged w₀ name (content ++ chunk.take n) w
      | .error _ => Staged w₀ name content w := by
  intro w hw
  change match (retryLoop (writeTemp name chunk) failed w.script w).1 with
    | .ok count => ∃ n, count = min chunk.length n ∧
        Staged w₀ name (content ++ chunk.take n)
          (retryLoop (writeTemp name chunk) failed w.script w).2
    | .error _ => Staged w₀ name content (retryLoop (writeTemp name chunk) failed w.script w).2
  obtain ⟨turn, w₁, hcalm, ⟨count, hlast, hrun⟩ | ⟨failure, hlast, hrun⟩⟩ :=
    @retryLoop_spec Nat (writeTemp name chunk) failed (fun _ _ _ => writeTemp_error) w.script w rfl
  · rw [hrun]
    rcases writeTemp_cases name chunk turn w₁ with ⟨failure, hfailed⟩ | hwritten
    · rw [hfailed] at hlast
      cases hlast
    · rw [hwritten, Prod.mk.injEq, Except.ok.injEq] at hlast
      refine ⟨turn.amount, hlast.1.symm, ?_⟩
      rw [← hlast.2]
      exact (hw.follows hcalm).write _
  · rw [hrun]
    exact hw.follows hcalm

/-- Whatever becomes of the loop, what it has written is at the end of the staged file. -/
theorem writeAll_staged (w₀ : World) (name path : Bytes) (rounds : Nat) (content rest : Bytes)
    (hrounds : rest.length ≤ rounds) :
    Triple (Staged w₀ name content) (writeAll (writeTemp name) path rounds rest) fun r w =>
      match r with
      | .ok () => Staged w₀ name (content ++ rest) w
      | .error _ => ∃ staged, Staged w₀ name staged w := by
  induction rounds generalizing content rest with
  | zero =>
    have hnone : rest = [] := List.length_eq_zero_iff.mp (by omega)
    refine Triple.pure fun w hw => ?_
    rw [hnone, List.append_nil]
    exact hw
  | succ rounds ih =>
    unfold writeAll
    split
    · rename_i hnone
      refine Triple.pure fun w hw => ?_
      rw [hnone, List.append_nil]
      exact hw
    · refine Triple.bind (retrying_writeTemp w₀ name content _ _) (fun count => ?_) fun e w hw =>
        ⟨content, hw⟩
      by_cases hzero : count = 0
      · rw [if_pos hzero]
        exact Triple.throw fun w ⟨n, _, hw⟩ => ⟨_, hw⟩
      · rw [if_neg hzero]
        rintro w ⟨n, hcount, hw⟩
        have hwritten : (rest.take (2 ^ 63 - 1)).take n ++ rest.drop count = rest := by
          have hpiece : (rest.take (2 ^ 63 - 1)).take n = rest.take count := by
            rw [List.take_take, hcount, List.length_take, List.take_eq_take_iff]
            omega
          rw [hpiece, List.take_append_drop]
        have hend := ih (content ++ (rest.take (2 ^ 63 - 1)).take n) (rest.drop count)
          (by rw [List.length_drop]; omega) w hw
        rw [List.append_assoc, hwritten] at hend
        exact hend

theorem calm_syncFd (path : Bytes) (message : String) : Along Calm (syncFd path message) :=
  idle_plain.retrying _

theorem writeAndSyncTemp_staged (w₀ : World) (name contents display : Bytes)
    (durability : WriteTextDurability) :
    Triple (Staged w₀ name []) (writeAndSyncTemp name contents display durability) fun r w =>
      match r with
      | .ok () => Staged w₀ name contents w
      | .error _ => ∃ staged, Staged w₀ name staged w := by
  have hcalm : Along Calm (if durability ≠ .renameOnly
    then syncFd display "failed to sync anchored temporary file"
      else pure ()) := by
    split
    · exact calm_syncFd display _
    · exact Along.pure
  refine Triple.bind (writeAll_staged w₀ name display _ [] contents le_rfl) (fun _ => ?_)
    fun e w hw => hw
  intro w (hw : Staged w₀ name contents w)
  have hafter := hw.follows (hcalm w)
  split
  · exact hafter
  · exact ⟨contents, hafter⟩

def Event.isCommit : Event → Bool
  | .commit _ _ => true
  | _ => false

/-- Our commit has put `content` in the place of `version`. Others have changed the target before
and afterwards, and there is nothing of ours beside it that was not there. -/
def Commits (w : World) (version : Option Version) (content : Bytes) (w' : World) : Prop :=
  ∃ (u t : World) (new : Version), Follows w u ∧ u.target = version ∧ t.target = some new ∧
    new.content = content ∧
    t.log = u.log ++ [Event.commit version content] ∧ Follows t w' ∧ w'.temps = w.temps

/-- The log of the others says which version we have replaced, and with what. -/
theorem Commits.unique {w w' : World} {version version' : Option Version} {content content' : Bytes}
    (h : Commits w version content w') (h' : Commits w version' content' w') : version = version' ∧
      content = content' := by
  have hlog : ∀ {version content}, Commits w version content w' →
    ∃ before after : List (Option Version),
      w'.log = w.log ++
        (before.map .others ++ Event.commit version content :: after.map .others) := by
    rintro version content ⟨u, t, new, ⟨before, hu, -⟩, -, -, -, ht, ⟨after, hw', -⟩, -⟩
    refine ⟨before, after, ?_⟩
    rw [hw', ht, hu]
    simp
  obtain ⟨before, after, hfirst⟩ := hlog h
  obtain ⟨before', after', hsecond⟩ := hlog h'
  -- our commit is the only change that is not one of the others
  have hsame := congrArg (List.filter Event.isCommit)
    (List.append_cancel_left (hfirst.symm.trans hsecond))
  have hothers : ∀ changes : List (Option Version),
      (changes.map Event.others).filter Event.isCommit = [] := by
    intro changes
    refine List.filter_eq_nil_iff.mpr fun event hevent => ?_
    obtain ⟨change, -, rfl⟩ := List.mem_map.mp hevent
    exact Bool.false_ne_true
  rw [List.filter_append, List.filter_append, List.filter_cons_of_pos rfl,
    List.filter_cons_of_pos rfl, hothers, hothers, hothers, hothers] at hsame
  injection hsame with hhead
  injection hhead with hversion hcontent
  exact ⟨hversion, hcontent⟩

variable (m : FileMutation)

theorem calm_compareCurrent (options : WriteTextOptions) (opened : Except Failure Descriptor) :
    Along Calm (m.compareCurrent options opened) := by
  unfold FileMutation.compareCurrent
  split
  · split <;> exact Along.throw
  · refine Along.bind ((idle_fstat _ _).check _) fun current => ?_
    split
    · exact Along.throw
    · split
      · exact Along.pure
      · split
        · exact Along.pure
        · exact Along.throw
  · exact Along.throw
  · split
    · exact Along.throw
    · exact Along.pure

theorem calm_checkCurrent (options : WriteTextOptions) : Along Calm (m.checkCurrent options) :=
  Along.bind (idle_openTarget false).syscall fun opened => calm_compareCurrent m options opened

/-- What a replacement has replaced is what was captured, and the verification has accepted it. -/
def Accepted (options : WriteTextOptions) (version : Option Version) : Prop :=
  version.map Version.stamp = m.captured ∧
    ∀ verify, options.verifyBeforeCommit = some verify → ∀ v, version = some v →
      verify (fingerprintFromStat v.stamp) = .ok ()

/-- The last look finds what was captured. -/
theorem checkCurrent_ok {options : WriteTextOptions} {w w' : World} (hw : w.Sound)
    (hknown : ∀ s, m.captured = some s → Known s w)
    (h : runIn (m.checkCurrent options) w = (.ok (), w')) :
    Accepted m options w'.target := by
  obtain ⟨opened, w₁, hopen, h⟩ := runIn_bind_ok h
  rw [runIn_syscall, idle_openTarget] at hopen
  cases hopen
  unfold FileMutation.compareCurrent at h
  split at h
  · split at h <;> cases h
  · rename_i captured fd hcaptured hfd
    obtain ⟨status, w₂, hstat, h⟩ := runIn_bind_ok h
    rw [runIn_check, idle_fstat] at hstat
    split at hstat
    · rename_i status' hstatus
      cases hstat
      split at h
      · cases h
      · rename_i hsame
        have hstamp : status.stamp = captured := not_not.mp hsame
        obtain ⟨v, hv, -, rfl⟩ := (observed hw hfd hstatus).2 (hstamp ▸ hknown captured hcaptured)
        have hcurrent : (some v).map Version.stamp = m.captured := by
          rw [hcaptured, ← hstamp]
          rfl
        rw [← hv] at hcurrent
        split at h
        · rename_i hverify
          cases h
          exact ⟨hcurrent, fun verify hsome => by rw [hverify] at hsome; cases hsome⟩
        · rename_i verify hverify
          split at h
          · rename_i haccepted
            cases h
            refine ⟨hcurrent, fun verify' hsome v' hv' => ?_⟩
            cases hverify.symm.trans hsome
            cases hv.symm.trans hv'
            exact haccepted
          · cases h
    · cases hstat
  · cases h
  · rename_i failure hcaptured hfailure
    split at h
    · cases h
    · rename_i hnone
      cases h
      have htarget := openTarget_enoent hfailure (not_not.mp hnone)
      rw [htarget]
      exact ⟨hcaptured.symm, fun verify _ v hv => by cases hv⟩

section Commits

variable {w w₁ w' w'' : World} {version : Option Version} {content : Bytes}

theorem Commits.calm (h : Commits w version content w') (hcalm : Calm w' w'') :
    Commits w version content w'' := by
  obtain ⟨u, t, new, hbefore, hversion, hnew, hcontent, hlog, hafter, htemps⟩ := h
  exact ⟨u, t, new, hbefore, hversion, hnew, hcontent, hlog, hafter.trans hcalm.1,
    hcalm.2.trans htemps⟩

theorem Calm.commits (hcalm : Calm w w₁) (h : Commits w₁ version content w') :
    Commits w version content w' := by
  obtain ⟨u, t, new, hbefore, hversion, hnew, hcontent, hlog, hafter, htemps⟩ := h
  exact ⟨u, t, new, hcalm.1.trans hbefore, hversion, hnew, hcontent, hlog, hafter,
    htemps.trans hcalm.2⟩

/-- The staged file takes the target's name, and its own name goes. -/
theorem Staged.commits {name : Bytes} (h : Staged w name content w₁) (turn : Turn)
    (hafter : Calm (w₁.install turn name) w') :
    Commits w w₁.target content (w'.removeTemp name) := by
  have hcontent := h.tempContent
  obtain ⟨hfollows, htemps, hnew⟩ := h
  refine ⟨w₁, w₁.install turn name, _, hfollows, rfl, rfl, hcontent, ?_,
    hafter.1.trans (follows_temps w' _), ?_⟩
  · rw [World.install, hcontent]
  · have hsame : w'.temps = ⟨name, content⟩ :: w.temps := hafter.2.trans htemps
    simpa [World.removeTemp, hsame] using filter_staged hnew

/-- An operation that succeeds ends as `P` says; one that fails has left the target to the others.
Of an error that is excused nothing is said. -/
def AllOrNothing {α : Type} (excused : Error → Prop) (P : World → Prop) (w : World) :
    Result α × World → Prop
  | (.ok _, w') => P w'
  | (.error e, w') => ¬excused e → Calm w w'

theorem AllOrNothing.bind {α β : Type} {excused : Error → Prop} {P : World → Prop} {m : Sys α}
    {f : α → Sys β} (hm : Along Calm m) (hok : ∀ a w₁, runIn m w = (.ok a, w₁) → Calm w w₁ →
    AllOrNothing excused P w₁ (runIn (f a) w₁)) :
    AllOrNothing excused P w (runIn (m >>= f) w) := by
  have hcalm := hm w
  rw [runIn_bind]
  rcases hrun : runIn m w with ⟨e | a, w₁⟩
  · rw [hrun] at hcalm
    exact fun _ => hcalm
  · rw [hrun] at hcalm
    have hrest := hok a w₁ hrun hcalm
    dsimp only
    rcases hrun' : runIn (f a) w₁ with ⟨e | b, w'⟩
    · rw [hrun'] at hrest
      exact fun hother => hcalm.trans (hrest hother)
    · rw [hrun'] at hrest
      exact hrest

theorem AllOrNothing.throw {α : Type} {excused : Error → Prop} {P : World → Prop} {e : Error} :
    AllOrNothing excused P w (runIn (throw e : Sys α) w) := fun _ => Calm.refl w

theorem AllOrNothing.weaken {α : Type} {excused : Error → Prop} {P Q : World → Prop}
    {outcome : Result α × World} (h : AllOrNothing excused P w outcome) (hQ : ∀ w', P w' → Q w') :
    AllOrNothing excused Q w outcome := by
  rcases outcome with ⟨e | a, w'⟩
  · exact h
  · exact hQ w' h

/-- What is computed after an operation that committed cannot fail. -/
theorem AllOrNothing.then_pure {α β : Type} {excused : Error → Prop} {P Q : World → Prop}
    {m : Sys α} {b : β} (h : AllOrNothing excused P w (runIn m w)) (hQ : ∀ w', P w' → Q w') :
    AllOrNothing excused Q w (runIn (m >>= fun _ => pure b) w) := by
  rw [runIn_bind]
  rcases hrun : runIn m w with ⟨e | a, w'⟩
  · rw [hrun] at h
    exact h
  · rw [hrun] at h
    exact hQ w' h

end Commits

theorem takeQuietTurn_target (w : World) : w.takeQuietTurn.2.target = w.target := by
  unfold World.takeQuietTurn
  split <;> rfl

/-- Between the look and the rename nothing happens to the target. -/
theorem renameTemp_staged {w w₁ : World} {name content : Bytes} (h : Staged w name content w₁) :
    (∃ failure w', runIn (renameTemp name) w₁ = (.ok (.error failure), w') ∧
      Staged w name content w') ∨
      ∃ w', runIn (renameTemp name) w₁ = (.ok (.ok ()), w') ∧ Commits w w₁.target content w' := by
  have hquiet := h.follows (calm_takeQuietTurn w₁)
  rw [renameTemp, runIn_of]
  split
  · exact .inl ⟨_, _, rfl, hquiet⟩
  · right
    refine ⟨_, rfl, ?_⟩
    rw [← takeQuietTurn_target w₁]
    exact hquiet.commits _ (Calm.refl _)

/-- The link fails if there is a target by then. -/
theorem linkTemp_staged {w w₁ : World} {name content : Bytes} (h : Staged w name content w₁) :
    (∃ failure w', runIn (syscall (linkTemp name)) w₁ = (.ok (.error failure), w') ∧
      Staged w name content w') ∨
      ∃ w', runIn (syscall (linkTemp name)) w₁ = (.ok (.ok ()), w') ∧
        Commits w none content (unlinkTemp name w') := by
  have hturn := h.follows (calm_takeTurn w₁)
  rw [runIn_syscall, linkTemp]
  split
  · exact .inl ⟨_, _, rfl, hturn⟩
  · rename_i hnone
    split
    · exact .inl ⟨_, _, rfl, hturn⟩
    · right
      refine ⟨_, rfl, ?_⟩
      rw [← hnone]
      exact hturn.commits _ (calm_takeTurn _)

theorem commitReplacement_staged {options : WriteTextOptions} {w w₁ : World} {name contents : Bytes}
    (hw : w.Sound) (hknown : ∀ s, m.captured = some s → Known s w) (h : Staged w name [] w₁) :
    match runIn (m.commitReplacement name contents options) w₁ with
    | (.ok (), w') => ∃ version, Commits w version contents w' ∧ Accepted m options version
    | (.error _, w') => Calm w (unlinkTemp name w') := by
  have hwrite := writeAndSyncTemp_staged w name contents m.display options.durability w₁ h
  rw [FileMutation.commitReplacement, runIn_bind]
  rcases hrun : runIn (writeAndSyncTemp name contents m.display options.durability) w₁ with ⟨e | _,
    w₂⟩
  · rw [hrun] at hwrite
    obtain ⟨staged, hstaged⟩ := hwrite
    exact hstaged.unlink
  · rw [hrun] at hwrite
    dsimp only at hwrite ⊢
    rw [runIn_bind]
    have hcalm := calm_checkCurrent m options w₂
    rcases hcheck : runIn (m.checkCurrent options) w₂ with ⟨e | _, w₃⟩
    · rw [hcheck] at hcalm
      exact (hwrite.follows hcalm).unlink
    · rw [hcheck] at hcalm
      dsimp only at hcalm ⊢
      have haccepted := checkCurrent_ok m (hwrite.1.sound hw)
        (fun s hs => (hknown s hs).follows hwrite.1) hcheck
      have hlooked := hwrite.follows hcalm
      rw [runIn_bind]
      rcases renameTemp_staged hlooked with ⟨failure, w', hrename, hstaged⟩ | ⟨w',
        hrename, hcommits⟩
      · rw [hrename]
        exact hstaged.unlink
      · rw [hrename]
        exact ⟨w₃.target, hcommits, haccepted⟩

theorem errnoError_message (message : String) (root relativePath : Bytes) (failure : Failure) :
    (errnoError message root relativePath failure).message = message := by
  unfold errnoError
  repeat' split
  all_goals rfl

theorem syncFd_error {path : Bytes} {message : String} {w w' : World} {e : Error}
    (h : runIn (syncFd path message) w = (.error e, w')) : e.message = message := by
  change retryLoop plain (errnoError message [] path) w.script w = (.error e, w') at h
  obtain ⟨turn, w₁, -, ⟨a, -, hrun⟩ | ⟨failure, -, hrun⟩⟩ :=
    @retryLoop_spec Unit plain (errnoError message [] path)
      (fun turn w _ _ => idle_plain turn w) w.script w rfl
  · rw [h] at hrun
    cases hrun
  · rw [h] at hrun
    cases hrun
    exact errnoError_message _ _ _ _

/-- The parent directory's sync is the only step after the rename that can fail. -/
theorem replaceText_commits {options : WriteTextOptions} {w : World} {contents : Bytes}
    (hw : w.Sound) (hknown : ∀ s, m.captured = some s → Known s w) :
    match runIn (m.replaceText contents options) w with
    | (.ok (), w') => ∃ version, Commits w version contents w' ∧ Accepted m options version
    | (.error e, w') =>
      (options.durability = .fsyncFileAndParent →
        e.message ≠ "failed to sync anchored parent directory") → Calm w w' := by
  have hmade := createSiblingTemp_staged w m.display 32 w (Calm.refl w)
  rw [FileMutation.replaceText, runIn_bind]
  rcases hrun : runIn (createSiblingTemp m.display 32) w with ⟨e | name, w₁⟩
  · rw [hrun] at hmade
    exact fun _ => hmade
  · rw [hrun] at hmade
    dsimp only at hmade ⊢
    have hcommit := @commitReplacement_staged m options w w₁ name contents hw hknown hmade
    rw [runIn_bind, Fallible.onError, runIn_of]
    rcases hbody : runIn (m.commitReplacement name contents options) w₁ with ⟨e | _, w₂⟩
    · rw [hbody] at hcommit
      exact fun _ => hcommit
    · rw [hbody] at hcommit
      obtain ⟨version, hcommits, haccepted⟩ := hcommit
      dsimp only
      by_cases hparent : options.durability = .fsyncFileAndParent
      · rw [if_pos hparent]
        have hcalm := calm_syncFd m.display "failed to sync anchored parent directory" w₂
        rcases hsync : runIn (syncFd m.display "failed to sync anchored parent directory")
          w₂ with ⟨e | _, w'⟩
        · exact fun hother => absurd (syncFd_error hsync) (hother hparent)
        · rw [hsync] at hcalm
          exact ⟨version, hcommits.calm hcalm, haccepted⟩
      · rw [if_neg hparent]
        exact ⟨version, hcommits, haccepted⟩

theorem commitExclusive_staged {durability : WriteTextDurability} {w w₁ : World}
    {name contents : Bytes} (h : Staged w name [] w₁) :
    match runIn (m.commitExclusive name contents durability) w₁ with
    | (.ok (), w') => Commits w none contents (unlinkTemp name w')
    | (.error _, w') => Calm w (unlinkTemp name w') := by
  have hwrite := writeAndSyncTemp_staged w name contents m.display durability w₁ h
  rw [FileMutation.commitExclusive, runIn_bind]
  rcases hrun : runIn (writeAndSyncTemp name contents m.display durability) w₁ with ⟨e | _, w₂⟩
  · rw [hrun] at hwrite
    obtain ⟨staged, hstaged⟩ := hwrite
    exact hstaged.unlink
  · rw [hrun] at hwrite
    dsimp only at hwrite ⊢
    rw [runIn_bind]
    rcases linkTemp_staged hwrite with ⟨failure, w', hlink, hstaged⟩ | ⟨w', hlink, hcommits⟩
    · rw [hlink]
      by_cases hexists : failure.errno = eexist
      · simpa only [if_pos hexists, runIn_throw] using hstaged.unlink
      · simpa only [if_neg hexists, runIn_throw] using hstaged.unlink
    · rw [hlink]
      exact hcommits

theorem createExclusive_commits {durability : WriteTextDurability} {w : World} {contents : Bytes} :
    match runIn (m.createExclusive contents durability) w with
    | (.ok (), w') => m.captured = none ∧ Commits w none contents w'
    | (.error _, w') => Calm w w' := by
  unfold FileMutation.createExclusive
  by_cases hpresent : m.captured.isSome
  · rw [if_pos hpresent]
    exact Calm.refl w
  · rw [if_neg hpresent]
    have hmade := createSiblingTemp_staged w m.display 32 w (Calm.refl w)
    rw [runIn_bind]
    rcases hrun : runIn (createSiblingTemp m.display 32) w with ⟨e | name, w₁⟩
    · rw [hrun] at hmade
      exact hmade
    · rw [hrun] at hmade
      dsimp only at hmade ⊢
      have hcommit := @commitExclusive_staged m durability w w₁ name contents hmade
      rw [Fallible.always, runIn_of]
      rcases hbody : runIn (m.commitExclusive name contents durability) w₁ with ⟨e | _, w₂⟩
      · rw [hbody] at hcommit
        exact hcommit
      · rw [hbody] at hcommit
        exact ⟨by simpa using hpresent, hcommit⟩

/-- A write that replaces the file or creates it commits what was asked for, over what was captured,
or leaves everything to the others. -/
theorem writeText_commits {options : WriteTextOptions} {w : World} {contents : Bytes} (hw : w.Sound)
    (hknown : ∀ s, m.captured = some s → Known s w) (hmode : options.mode ≠ .append) :
    match runIn (m.writeText contents options) w with
    | (.ok (), w') => ∃ version, Commits w version contents w' ∧ Accepted m options version ∧
        (options.mode = .failIfExists → version = none)
    | (.error e, w') =>
      (options.durability = .fsyncFileAndParent →
        e.message ≠ "failed to sync anchored parent directory") → Calm w w' := by
  rw [FileMutation.writeText]
  rcases m.validateOptions options with e | _
  · exact fun _ => Calm.refl w
  · rcases hchosen : options.mode with _ | _ | _
    · have hcommit := @replaceText_commits m options w contents hw hknown
      dsimp only
      rcases hrun : runIn (m.replaceText contents options) w with ⟨e | _, w'⟩
      · rw [hrun] at hcommit
        exact hcommit
      · rw [hrun] at hcommit
        obtain ⟨version, hcommits, haccepted⟩ := hcommit
        exact ⟨version, hcommits, haccepted, fun hexclusive => by cases hexclusive⟩
    · exact absurd hchosen hmode
    · have hcommit := @createExclusive_commits m options.durability w contents
      dsimp only
      rcases hrun : runIn (m.createExclusive contents options.durability) w with ⟨e | _, w'⟩
      · rw [hrun] at hcommit
        exact fun _ => hcommit
      · rw [hrun] at hcommit
        exact ⟨none, hcommit.2, ⟨hcommit.1.symm, fun verify _ v hv => by cases hv⟩, fun _ => rfl⟩

/-- The version that is replaced was the target when the mutation began, and nothing has happened in
between. -/
theorem Commits.captured {u w w' : World} {version : Option Version} {content : Bytes} {v : Version}
    (hu : u.Sound) (hknown : ∀ s, m.captured = some s → Known s u) (hcalm : Calm u w)
    (h : Commits w version content w') (hstamp : version.map Version.stamp = m.captured)
    (hv : version = some v) :
    u.target = some v ∧ w.log = u.log := by
  obtain ⟨before, _, _, hbefore, hversion, -⟩ := h
  subst hv
  have hfollows := hcalm.1.trans hbefore
  have hsame := (hknown v.stamp hstamp.symm).unchanged hu hfollows hversion rfl
  exact ⟨(hfollows.target_of_log hsame).symm.trans hversion, (hcalm.1.log_split hbefore hsame).1⟩

end Orangutan.Io
