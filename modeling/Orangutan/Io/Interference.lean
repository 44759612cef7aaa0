import Orangutan.Io.FileMutation

/-!
# What others do in the meantime

Between two of our calls the target changes only in turns of others, and every version has a
stamp of its own. So a stamp that is seen again shows that nothing has happened since.
-/

namespace Orangutan.Io

set_option autoImplicit false

open Orangutan.Core Orangutan.Lib Orangutan.Lib.Fallible

/-- The stamps that a turn brings: those of new versions, and the one that a file shows which has
just been opened and is no longer the target. Its change time says so. -/
def Turn.stamps (turn : Turn) : List Stamp :=
    turn.others.reduceOption.map Version.stamp ++ [turn.stale.stamp]

def World.stamps (w : World) : List Stamp :=
    w.seen.map Version.stamp ++ w.script.flatMap Turn.stamps

/-- No two versions have the same stamp, and the target is the last of the versions seen. -/
structure World.Sound (w : World) : Prop where
  distinct : w.stamps.Nodup
  current : ∀ v, w.target = some v → w.seen.getLast? = some v

/-- From `w` on, only others have changed the target. -/
def Follows (w w' : World) : Prop :=
  ∃ changes : List (Option Version), w'.log = w.log ++ changes.map .others ∧
    w'.target = changes.getLast?.getD w.target ∧ w'.seen = w.seen ++ changes.reduceOption ∧
    w'.stamps.Sublist w.stamps

/-- And there is nothing of ours beside it that was not there. -/
def Calm (w w' : World) : Prop := Follows w w' ∧ w'.temps = w.temps

theorem Follows.refl (w : World) : Follows w w := ⟨[], by simp⟩

theorem Follows.trans {w w₁ w₂ : World} (h : Follows w w₁) (h' : Follows w₁ w₂) : Follows w w₂ := by
  obtain ⟨changes, hlog, htarget, hseen, hstamps⟩ := h
  obtain ⟨changes', hlog', htarget', hseen', hstamps'⟩ := h'
  refine ⟨changes ++ changes', ?_, ?_, ?_, hstamps'.trans hstamps⟩
  · rw [hlog', hlog, List.map_append, List.append_assoc]
  · rw [htarget', htarget, List.getLast?_append]
    cases changes'.getLast? <;> simp
  · rw [hseen', hseen, List.reduceOption_append, List.append_assoc]

instance : Std.Refl Follows := ⟨Follows.refl⟩

instance : IsTrans World Follows := ⟨fun _ _ _ => Follows.trans⟩

theorem Calm.refl (w : World) : Calm w w := ⟨Follows.refl w, rfl⟩

theorem Calm.trans {w w₁ w₂ : World} (h : Calm w w₁) (h' : Calm w₁ w₂) : Calm w w₂ :=
  ⟨h.1.trans h'.1, h'.2.trans h.2⟩

instance : Std.Refl Calm := ⟨Calm.refl⟩

instance : IsTrans World Calm := ⟨fun _ _ _ => Calm.trans⟩

theorem foldl_interfere (others : List (Option Version)) (w : World) :
    others.foldl World.interfere w =
      { w with
        target := others.getLast?.getD w.target
        seen := w.seen ++ others.reduceOption
        log := w.log ++ others.map .others } := by
  induction others generalizing w with
  | nil => simp
  | cons version rest ih =>
    rw [List.foldl_cons, ih]
    cases version <;> cases rest <;> simp [World.interfere, List.getLast?_cons]

/-- The turn is the next of the script. -/
theorem calm_turn (w : World) (turn : Turn) (rest : List Turn) (h : w.script = turn :: rest) :
    Calm w (turn.others.foldl World.interfere { w with script := rest }) := by
  rw [foldl_interfere]
  refine ⟨⟨turn.others, rfl, rfl, rfl, ?_⟩, rfl⟩
  simp only [World.stamps, h, List.map_append, List.flatMap_cons, Turn.stamps, List.append_assoc]
  apply List.Sublist.append_left
  apply List.Sublist.append_left
  exact List.sublist_cons_self _ _

theorem calm_takeTurn (w : World) : Calm w w.takeTurn.2 := by
  unfold World.takeTurn
  split
  · exact Calm.refl w
  · rename_i turn rest hscript
    exact calm_turn w turn rest hscript

/-- Nobody comes before the call; whatever the turn would have brought stays away. -/
theorem calm_takeQuietTurn (w : World) : Calm w w.takeQuietTurn.2 := by
  unfold World.takeQuietTurn
  split
  · exact Calm.refl w
  · rename_i turn rest hscript
    refine ⟨⟨[], by simp, by simp, by simp, ?_⟩, rfl⟩
    simp only [World.stamps, hscript, List.flatMap_cons]
    exact List.Sublist.append_left (List.sublist_append_right _ _) _

/-- The call itself changes nothing. -/
def Idle {α : Type} (call : Call α) : Prop := ∀ turn w, (call turn w).2 = w

theorem idle_plain : Idle plain := by
  intro turn w
  unfold plain
  split <;> rfl

theorem idle_openTarget (reading : Bool) : Idle (openTarget reading) := by
  intro turn w
  unfold openTarget
  split
  · rfl
  · split
    · rfl
    · split <;> rfl

theorem idle_fstat (fd : Descriptor) (later : Bool) : Idle (fstat fd later) := by
  intro turn w
  unfold fstat
  split <;> rfl

theorem idle_pread (fd : Descriptor) (offset requested : Nat) :
    Idle (pread fd offset requested) := by
  intro turn w
  unfold pread
  split
  · rfl
  · split
    · split <;> rfl
    · rfl

section Idle

variable {α : Type} {call : Call α}

theorem runIn_syscall (w : World) :
    runIn (syscall call) w = (.ok (call w.takeTurn.1 w.takeTurn.2).1,
      (call w.takeTurn.1 w.takeTurn.2).2) := rfl

theorem Idle.syscall (h : Idle call) : Along Calm (syscall call) := by
  intro w
  rw [runIn_syscall]
  simp only [h w.takeTurn.1 w.takeTurn.2]
  exact calm_takeTurn w

theorem runIn_check (failed : Failure → Error) (w : World) :
    runIn (Sys.check call failed) w =
      (match (call w.takeTurn.1 w.takeTurn.2).1 with
        | .ok a => .ok a
        | .error failure => .error (failed failure), (call w.takeTurn.1 w.takeTurn.2).2) := by
  rw [Sys.check, runIn_bind, runIn_syscall]
  dsimp only
  rcases (call w.takeTurn.1 w.takeTurn.2).1 with failure | a
  · rfl
  · rfl

theorem Idle.check (h : Idle call) (failed : Failure → Error) :
    Along Calm (Sys.check call failed) := by
  intro w
  rw [runIn_check]
  simp only [h w.takeTurn.1 w.takeTurn.2]
  exact calm_takeTurn w

/-- An interrupted call has done nothing, so what a loop of calls does is what its last call does.
-/
theorem retryLoop_spec {failed : Failure → Error}
    (h : ∀ turn w failure, (call turn w).1 = .error failure →
      (call turn w).2 = w) (script : List Turn) (w : World)
    (hscript : w.script = script) :
    ∃ turn w₁, Calm w w₁ ∧
      ((∃ a, call turn w₁ = (.ok a, (retryLoop call failed script w).2) ∧
        (retryLoop call failed script w).1 = .ok a) ∨
        ∃ failure, (call turn w₁).1 = .error failure ∧
          retryLoop call failed script w = (.error (failed failure), w₁)) := by
  induction script generalizing w with
  | nil =>
    refine ⟨{}, w, Calm.refl w, ?_⟩
    rcases hcall : call {} w with ⟨failure | a, w'⟩
    · right
      have hsame : w' = w := (congrArg Prod.snd hcall).symm.trans (h {} w failure (by rw [hcall]))
      exact ⟨failure, rfl, by simp only [retryLoop, hcall]; rw [hsame]⟩
    · left
      exact ⟨a, by simp only [retryLoop, hcall], by simp only [retryLoop, hcall]⟩
  | cons turn rest ih =>
    have hcalm := calm_turn w turn rest hscript
    rcases hcall : call turn
      (turn.others.foldl World.interfere { w with script := rest }) with ⟨failure | a, w'⟩
    · have hsame := (congrArg Prod.snd hcall).symm.trans (h turn _ failure (by rw [hcall]))
      dsimp only at hsame
      simp only [retryLoop, hcall]
      split
      · obtain ⟨last, w₁, hcalm', hlast⟩ := ih w' (by rw [hsame, foldl_interfere])
        exact ⟨last, w₁, (hsame ▸ hcalm).trans hcalm', hlast⟩
      · rw [← hsame] at hcalm hcall
        exact ⟨turn, w', hcalm, .inr ⟨failure, by rw [hcall], rfl⟩⟩
    · exact ⟨turn, _, hcalm, .inl ⟨a, by simp only [retryLoop, hcall],
        by simp only [retryLoop, hcall]⟩⟩

theorem Idle.retrying (h : Idle call) (failed : Failure → Error) :
    Along Calm (retrying call failed) := by
  intro w
  obtain ⟨turn, w₁, hcalm, ⟨a, hcall, -⟩ | ⟨failure, -, hrun⟩⟩ :=
    @retryLoop_spec α call failed (fun turn w _ _ => h turn w) w.script w rfl
  · have hsame := h turn w₁
    rw [hcall] at hsame
    change Calm w (retryLoop call failed w.script w).2
    rw [hsame]
    exact hcalm
  · change Calm w (retryLoop call failed w.script w).2
    rw [hrun]
    exact hcalm

end Idle

theorem getLast?_reduceOption {l : List (Option Version)} {v : Version}
    (h : l.getLast? = some (some v)) :
    l.reduceOption.getLast? = some v := by
  obtain ⟨init, rfl⟩ := List.getLast?_eq_some_iff.mp h
  rw [List.reduceOption_append, List.reduceOption_singleton]
  simp

theorem Follows.sound {w w' : World} (h : Follows w w') (hw : w.Sound) : w'.Sound := by
  obtain ⟨changes, -, htarget, hseen, hstamps⟩ := h
  constructor
  · exact hstamps.nodup hw.distinct
  · intro v hv
    rw [hseen, List.getLast?_append]
    rcases hlast : changes.getLast? with _ | version
    · have hnone : changes = [] := List.getLast?_eq_none_iff.mp hlast
      rw [hlast, Option.getD_none] at htarget
      rw [hnone, hw.current v (htarget ▸ hv)]
      rfl
    · rw [hlast, Option.getD_some] at htarget
      rw [getLast?_reduceOption (hlast.trans (congrArg some (htarget.symm.trans hv)))]
      rfl

/-- The stamp belongs to a version that the target has had, or never will. -/
def Known (s : Stamp) (w : World) : Prop := s ∈ w.seen.map Version.stamp ∨ s ∉ w.stamps

theorem Known.follows {s : Stamp} {w w' : World} (hs : Known s w) (h : Follows w w') :
    Known s w' := by
  obtain ⟨changes, -, -, hseen, hstamps⟩ := h
  rcases hs with hold | hfresh
  · left
    rw [hseen, List.map_append]
    exact List.mem_append_left _ hold
  · exact .inr fun hin => hfresh (hstamps.subset hin)

/-- If a known stamp is the target's, nothing has happened since it was known. -/
theorem Known.unchanged {s : Stamp} {w w' : World} {v : Version} (hs : Known s w) (hw : w.Sound)
    (h : Follows w w') (hv : w'.target = some v) (hstamp : v.stamp = s) : w'.log = w.log := by
  have hw' := h.sound hw
  obtain ⟨changes, hlog, htarget, hseen, hstamps⟩ := h
  have hin : v ∈ w'.seen := List.mem_of_getLast? (hw'.current v hv)
  have hold : s ∈ w.seen.map Version.stamp := by
    rcases hs with hold | hfresh
    · exact hold
    · exfalso
      apply hfresh
      apply hstamps.subset
      exact List.mem_append_left _ (List.mem_map.mpr ⟨v, hin, hstamp⟩)
  rcases hend : changes.getLast? with _ | version
  · rw [hlog, List.getLast?_eq_none_iff.mp hend]
    simp
  · exfalso
    rw [hend, Option.getD_some, hv] at htarget
    have hnew : v ∈ changes.reduceOption :=
      List.mem_of_getLast? (getLast?_reduceOption (hend.trans (congrArg some htarget.symm)))
    have hdistinct := (List.nodup_append.mp hw'.distinct).1
    rw [hseen, List.map_append] at hdistinct
    exact (List.nodup_append.mp hdistinct).2.2 s hold s (List.mem_map.mpr ⟨v, hnew, hstamp⟩) rfl

theorem Follows.log_split {w w₁ w₂ : World} (h : Follows w w₁) (h' : Follows w₁ w₂)
    (hsame : w₂.log = w.log) :
    w₁.log = w.log ∧ w₂.log = w₁.log := by
  obtain ⟨changes, hlog, -⟩ := h
  obtain ⟨changes', hlog', -⟩ := h'
  rw [hlog', hlog, List.append_assoc] at hsame
  have hnone := List.append_right_eq_self.mp hsame
  rw [List.append_eq_nil_iff] at hnone
  rw [hlog', hlog, hnone.1, hnone.2]
  simp

theorem Follows.target_of_log {w w' : World} (h : Follows w w') (hsame : w'.log = w.log) :
    w'.target = w.target := by
  obtain ⟨changes, hlog, htarget, -⟩ := h
  rw [hlog] at hsame
  have hnone : changes = [] := List.map_eq_nil_iff.mp (List.append_right_eq_self.mp hsame)
  rw [htarget, hnone]
  rfl

/-- `openat` has given the target's file. -/
theorem openTarget_ok {reading : Bool} {turn : Turn} {w : World} {fd : Descriptor}
    (h : (openTarget reading turn w).1 = .ok fd) : ∃ v, w.target = some v ∧ v.holds fd = true := by
  unfold openTarget at h
  split at h
  · cases h
  · rename_i version htarget
    split at h
    · cases h
    · split at h
      · cases h
      · cases h
        exact ⟨version, htarget, by simp [Version.holds]⟩

/-- It says `ENOENT` only if there is nothing. -/
theorem openTarget_enoent {reading : Bool} {turn : Turn} {w : World} {failure : Failure}
    (h : (openTarget reading turn w).1 = .error failure) (hnone : failure.errno = enoent) :
      w.target = none := by
  unfold openTarget at h
  split at h
  · assumption
  · exfalso
    split at h
    · cases h
      exact absurd hnone (by decide)
    · split at h
      · rename_i hfilter
        cases h
        have hkept := (Option.filter_eq_some_iff.mp hfilter).2
        simp [hnone] at hkept
      · cases h

/-- Either the target is the file and is what was seen, or the stamp is one that no version has. -/
theorem fstat_opened {fd : Descriptor} {w : World} {v : Version} {status : Stat} (hw : w.Sound)
    (hv : w.target = some v) (hfd : v.holds fd = true)
    (h : (fstat fd false w.takeTurn.1 w.takeTurn.2).1 = .ok status) :
    (∃ v', w.takeTurn.2.target = some v' ∧ v'.holds fd = true ∧ status = v'.stat) ∨
      (status.stamp ∉ w.takeTurn.2.stamps ∧ ¬Known status.stamp w) := by
  have hdistinct := hw.distinct
  have hshown : status = statOf w.takeTurn.2 fd w.takeTurn.1.stale := by
    unfold fstat at h
    split at h
    · cases h
    · cases h
      rfl
  rcases hscript : w.script with _ | ⟨turn, rest⟩
  · have hsame : w.takeTurn.2 = w := by simp [World.takeTurn, hscript]
    left
    rw [hsame] at hshown ⊢
    exact ⟨v, hv, hfd, by simp [hshown, statOf, hv, hfd]⟩
  · have hturn : w.takeTurn.1 = turn := by simp [World.takeTurn, hscript]
    have hstale : status = turn.stale →
        status.stamp ∉ w.takeTurn.2.stamps ∧ ¬Known status.stamp w := by
      rintro rfl
      have hafter : w.takeTurn.2.stamps =
          (w.seen.map Version.stamp ++ turn.others.reduceOption.map Version.stamp) ++
            rest.flatMap Turn.stamps := by
        simp [World.takeTurn, hscript, foldl_interfere, World.stamps]
      have hbefore : w.stamps =
          (w.seen.map Version.stamp ++ turn.others.reduceOption.map Version.stamp) ++
            turn.stale.stamp :: rest.flatMap Turn.stamps := by
        simp [World.stamps, hscript, Turn.stamps]
      rw [hbefore, List.nodup_middle, ← hafter, List.nodup_cons] at hdistinct
      refine ⟨hdistinct.1, ?_⟩
      rintro (hseen | hfresh)
      · apply hdistinct.1
        rw [hafter, List.append_assoc]
        exact List.mem_append_left _ hseen
      · apply hfresh
        rw [hbefore]
        simp
    rw [hturn] at hshown
    rcases htarget : w.takeTurn.2.target with _ | v'
    · exact .inr (hstale (by simp [hshown, statOf, htarget]))
    · by_cases hfd' : v'.holds fd = true
      · exact .inl ⟨v', rfl, hfd', by simp [hshown, statOf, htarget, hfd']⟩
      · exact .inr (hstale (by simp [hshown, statOf, htarget, hfd']))

/-- What a file shows that is opened by name and looked at: the stamp is known from then on, and if
it was known before, the target is the file and has it. -/
theorem observed {reading : Bool} {w : World} {fd : Descriptor} {status : Stat} (hw : w.Sound)
    (hopen : (openTarget reading w.takeTurn.1 w.takeTurn.2).1 = .ok fd)
    (hstat : (fstat fd false w.takeTurn.2.takeTurn.1 w.takeTurn.2.takeTurn.2).1 = .ok status) :
    Known status.stamp w.takeTurn.2.takeTurn.2 ∧
      (Known status.stamp w → ∃ v, w.takeTurn.2.takeTurn.2.target = some v ∧ v.holds fd = true ∧
        status = v.stat) := by
  have hcalm := (calm_takeTurn w).1
  have hcalm' := (calm_takeTurn w.takeTurn.2).1
  obtain ⟨v, hv, hfd⟩ := openTarget_ok hopen
  rcases fstat_opened (hcalm.sound hw) hv hfd hstat with ⟨v', hv', hfd', rfl⟩ | ⟨hfresh, hunknown⟩
  · constructor
    · left
      have hlast := (hcalm'.sound (hcalm.sound hw)).current v' hv'
      exact List.mem_map.mpr ⟨v', List.mem_of_getLast? hlast, rfl⟩
    · intro _
      exact ⟨v', hv', hfd', rfl⟩
  · exact ⟨.inr hfresh, fun hknown => absurd (hknown.follows hcalm) hunknown⟩

end Orangutan.Io
