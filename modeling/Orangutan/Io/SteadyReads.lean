import Orangutan.Io.FileReading
import Orangutan.Io.Interference

/-!
# What a read gives while nothing happens

If a file is the target and nobody touches the target during the read, the read gives the file's
bytes and its fingerprint, however short the single reads are.
-/

namespace Orangutan.Io

set_option autoImplicit false

open Orangutan.Core Orangutan.Lib Orangutan.Lib.Fallible

/-- What is computed while the target stays this version is as `Q` says. -/
def Steady {α : Type} (v : Version) (m : Sys α) (Q : α → Prop) : Prop :=
  ∀ w, w.target = some v → (runIn m w).2.log = w.log → ∀ a, (runIn m w).1 = .ok a → Q a

section Rules

variable {α β : Type} {v : Version} {m : Sys α} {f : α → Sys β} {Q : α → Prop} {T : β →
  Prop} {call : Call α}
  {failed : Failure → Error}

theorem Steady.pure {a : α} (h : Q a) : Steady v (pure a : Sys α) Q := by
  intro w _ _ b hb
  cases hb
  exact h

theorem Steady.throw {e : Error} : Steady v (throw e : Sys α) Q := by
  intro w _ _ b hb
  cases hb

theorem Steady.bind (hm : Along Calm m) (hf : ∀ a, Along Calm (f a)) (h : Steady v m Q)
    (hok : ∀ a, Q a → Steady v (f a) T) : Steady v (m >>= f) T := by
  intro w hw hsame b hb
  have hfirst := (hm w).1
  rw [runIn_bind] at hsame hb
  rcases hrun : runIn m w with ⟨e | a, w₁⟩
  · rw [hrun] at hb
    cases hb
  · rw [hrun] at hsame hb hfirst
    have hsplit := hfirst.log_split (hf a w₁).1 hsame
    have htarget : w₁.target = some v := (hfirst.target_of_log hsplit.1).trans hw
    exact hok a (h w hw (by rw [hrun]; exact hsplit.1) a (by rw [hrun])) w₁ htarget hsplit.2 b hb

theorem Steady.weaken {Q' : α → Prop} (h : Steady v m Q) (hpost : ∀ a, Q a → Q' a) :
    Steady v m Q' :=
  fun w hw hsame a ha => hpost a (h w hw hsame a ha)

theorem Steady.check (hcall : Idle call)
    (h : ∀ turn w a, w.target = some v → (call turn w).1 = .ok a → Q a) :
    Steady v (Sys.check call failed) Q := by
  intro w hw hsame a ha
  rw [runIn_check] at hsame ha
  have hcalm := (calm_takeTurn w).1
  rw [hcall w.takeTurn.1 w.takeTurn.2] at hsame
  cases hresult : (call w.takeTurn.1 w.takeTurn.2).1 with
  | error failure => simp [hresult] at ha
  | ok b =>
    simp only [hresult, Except.ok.injEq] at ha
    exact ha ▸ h _ _ b ((hcalm.target_of_log hsame).trans hw) hresult

theorem Steady.retrying (hcall : Idle call)
    (h : ∀ turn w a, w.target = some v → (call turn w).1 = .ok a → Q a) :
    Steady v (retrying call failed) Q := by
  intro w hw hsame a ha
  obtain ⟨turn, w₁, hcalm, ⟨b, hlast, hrun⟩ | ⟨failure, -, hrun⟩⟩ :=
    @retryLoop_spec α call failed (fun turn w _ _ => hcall turn w) w.script w rfl
  · have hend : (retryLoop call failed w.script w).2 = w₁ := by
      have hidle := hcall turn w₁
      rw [hlast] at hidle
      exact hidle
    change (retryLoop call failed w.script w).2.log = w.log at hsame
    change (retryLoop call failed w.script w).1 = .ok a at ha
    rw [hrun] at ha
    rw [hend] at hsame
    cases ha
    exact h turn w₁ a ((hcalm.1.target_of_log hsame).trans hw) (by rw [hlast])
  · change (retryLoop call failed w.script w).1 = .ok a at ha
    rw [hrun] at ha
    cases ha

end Rules

section Reading

variable (file : ReadOnlyFile)

theorem calm_computeFileFingerprint : Along Calm (computeFileFingerprint file) := by
  unfold computeFileFingerprint
  refine Along.bind ((idle_fstat _ _).check _) fun status => ?_
  split
  · exact Along.throw
  · exact Along.pure

theorem calm_readChunk (offset requested : Nat) : Along Calm (readChunk file offset requested) := by
  unfold readChunk
  split
  · exact Along.throw
  · exact (idle_pread _ _ _).retrying _

theorem calm_readBytesLoop (offset length rounds : Nat) (text : Bytes) :
    Along Calm (readBytesLoop file offset length rounds text) := by
  induction rounds generalizing text with
  | zero => exact Along.pure
  | succ rounds ih =>
    unfold readBytesLoop
    split
    · refine Along.bind (calm_readChunk file _ _) fun piece => ?_
      split
      · exact Along.pure
      · exact ih _
    · exact Along.pure

theorem calm_readWhole (fileSize maxBytes : Nat) : Along Calm (readWhole file fileSize maxBytes) :=
  Along.bind (calm_readBytesLoop file _ _ _ _) fun _ => Along.pure

theorem calm_readLinesLoop (lines : LineSpan) (maxBytes rounds offset : Nat) (scan : LineScan) :
    Along Calm (readLinesLoop file lines maxBytes rounds offset scan) := by
  induction rounds generalizing offset scan with
  | zero => exact Along.pure
  | succ rounds ih =>
    unfold readLinesLoop
    split
    · refine Along.bind (calm_readChunk file _ _) fun chunk => ?_
      split
      · exact Along.pure
      · dsimp only
        split
        · exact Along.pure
        · exact ih _ _
    · exact Along.pure

theorem calm_dispatchRead (options : ReadTextOptions) (fingerprint : FileFingerprint) :
    Along Calm (dispatchRead file options fingerprint) := by
  unfold dispatchRead
  split
  · exact calm_readWhole file _ _
  · split
    · exact Along.bind (fun w => calm_readLinesLoop file _ _ _ _ _ w) fun _ => Along.pure
    · exact Along.bind (calm_readBytesLoop file _ _ _ _) fun _ => Along.pure

theorem calm_comparePrints (options : ReadTextOptions) (pre post : FileFingerprint)
    (result : ReadTextResult) :
    Along Calm (comparePrints file options pre post result) := by
  unfold comparePrints
  split
  · exact Along.pure
  · split
    · exact Along.throw
    · refine Along.bind (calm_dispatchRead file options post) fun again => ?_
      refine Along.bind (calm_computeFileFingerprint file) fun last => ?_
      split
      · exact Along.pure
      · exact Along.throw

theorem calm_readBetweenFingerprints (options : ReadTextOptions) :
    Along Calm (readBetweenFingerprints file options) := by
  refine Along.bind (calm_computeFileFingerprint file) fun pre => ?_
  refine Along.bind (calm_dispatchRead file options pre) fun result => ?_
  refine Along.bind (calm_computeFileFingerprint file) fun post => ?_
  exact calm_comparePrints file options pre post result

theorem calm_readFile (options : ReadTextOptions) : Along Calm (readFile file options) := by
  unfold readFile
  split
  · exact Along.throw
  · split
    · exact Along.throw
    · exact calm_readBetweenFingerprints file options

end Reading

section Steady

variable {file : ReadOnlyFile} {v : Version}

theorem statOf_holds {w : World} {fd : Descriptor} (hv : w.target = some v)
    (hfd : v.holds fd = true) (otherwise : Stat) :
    statOf w fd otherwise = v.stat := by
  simp [statOf, hv, hfd]

theorem steady_computeFileFingerprint (hfd : v.holds file.fd = true) :
    Steady v (computeFileFingerprint file) fun fingerprint =>
      fingerprint = fingerprintFromStat v.stamp := by
  unfold computeFileFingerprint
  have hstat : Steady v (Sys.check (fstat file.fd true)
      (descriptorError "failed to inspect file descriptor for fingerprint" file)) fun status =>
        status = v.stat := by
    refine Steady.check (idle_fstat _ _) fun turn w status hw hstatus => ?_
    unfold fstat at hstatus
    split at hstatus
    · cases hstatus
    · cases hstatus
      exact statOf_holds hw hfd _
  refine hstat.bind ((idle_fstat _ _).check _) (fun status => ?_) fun status hstatus => ?_
  · split
    · exact Along.throw
    · exact Along.pure
  · split
    · exact Steady.throw
    · exact Steady.pure (by rw [hstatus]; rfl)

/-- A single read gives some of the bytes, and none only at the end. -/
theorem steady_readChunk (hfd : v.holds file.fd = true) (offset requested : Nat) :
    Steady v (readChunk file offset requested) fun piece =>
      ∃ n, 0 < n ∧ piece = (v.content.drop offset).take (min requested n) := by
  unfold readChunk
  split
  · exact Steady.throw
  · refine Steady.retrying (idle_pread _ _ _) fun turn w piece hw hpiece => ?_
    unfold pread at hpiece
    split at hpiece
    · cases hpiece
    · simp only [hw, hfd, if_true, Except.ok.injEq] at hpiece
      exact ⟨max 1 turn.amount, by omega, hpiece.symm⟩

/-- Nothing was read although something was asked for, so the file ends here. -/
theorem chunk_ends {content text : Bytes} {offset length n : Nat}
    (htext : text = (content.drop offset).take text.length) (hmore : text.length < length)
    (hn : 0 < n)
    (hnone : (content.drop (offset + text.length)).take
    (min (min kChunkSize (length - text.length)) n) = []) :
    text = (content.drop offset).take length := by
  have hchunk : 0 < kChunkSize := by decide
  have hend : content.drop (offset + text.length) = [] := by
    rcases List.take_eq_nil_iff.mp hnone with hzero | hnil
    · omega
    · exact hnil
  have hwhole : (content.drop offset).length ≤ text.length := by
    rw [← List.drop_drop] at hend
    exact List.drop_eq_nil_iff.mp hend
  rw [List.take_of_length_le hwhole] at htext
  rw [List.take_of_length_le (by omega)]
  exact htext

/-- A chunk extends what has been read. -/
theorem chunk_extends {content text piece : Bytes} {offset requested n : Nat}
    (htext : text = (content.drop offset).take text.length)
    (hpiece : piece = (content.drop (offset + text.length)).take (min requested n)) :
    text ++ piece = (content.drop offset).take (text ++ piece).length ∧
      piece.length ≤ requested := by
  have hrest : (content.drop offset).drop text.length = content.drop (offset + text.length) :=
    List.drop_drop
  have hpiece' : piece = (content.drop (offset + text.length)).take piece.length := by
    conv_lhs => rw [hpiece]
    rw [hpiece, List.length_take, List.take_eq_take_iff]
    omega
  constructor
  · rw [List.length_append, List.take_add, ← htext, hrest, ← hpiece']
  · rw [hpiece, List.length_take]
    omega

/-- The loop extends what it has read of these bytes until it has all. -/
theorem steady_readBytesLoop (hfd : v.holds file.fd = true) (offset length rounds : Nat)
    (text : Bytes) (htext : text = (v.content.drop offset).take text.length)
    (hshort : text.length ≤ length) (hrounds : length ≤ text.length + rounds) :
    Steady v (readBytesLoop file offset length rounds text) fun read =>
      read = (v.content.drop offset).take length := by
  induction rounds generalizing text with
  | zero =>
    refine Steady.pure ?_
    have hfull : text.length = length := by omega
    rw [← hfull]
    exact htext
  | succ rounds ih =>
    unfold readBytesLoop
    split
    · rename_i hmore
      refine (steady_readChunk hfd _ _).bind (calm_readChunk file _ _) (fun piece => ?_) ?_
      · split
        · exact Along.pure
        · exact calm_readBytesLoop file _ _ _ _
      · rintro piece ⟨n, hn, hpiece⟩
        split
        · rename_i hnone
          rw [hnone] at hpiece
          exact Steady.pure (chunk_ends htext hmore hn hpiece.symm)
        · rename_i hsome
          have hpositive : 0 < piece.length := List.length_pos_iff.mpr hsome
          obtain ⟨hextended, hbound⟩ := chunk_extends htext hpiece
          apply ih _ hextended
          · rw [List.length_append]
            omega
          · rw [List.length_append]
            omega
    · rename_i hdone
      refine Steady.pure ?_
      have hfull : text.length = length := by omega
      rw [← hfull]
      exact htext

theorem steady_readWhole (hfd : v.holds file.fd = true) (maxBytes : Nat) :
    Steady v (readWhole file v.content.length maxBytes) fun read =>
      read.truncated = false → read.text = v.content ∧ v.content.length ≤ maxBytes := by
  unfold readWhole
  refine (steady_readBytesLoop hfd 0 _ _ [] (by simp) (by simp) (by simp)).bind
    (calm_readBytesLoop file _ _ _ _)
    (fun _ => Along.pure) ?_
  rintro text rfl
  refine Steady.pure fun hwhole => ?_
  have hfits : ¬maxBytes < v.content.length := of_decide_eq_false hwhole
  simp only [hfits, decide_false, Bool.false_eq_true, false_and, if_false, List.drop_zero]
  exact ⟨List.take_of_length_le (by omega), Nat.not_lt.mp hfits⟩

/-- A whole read that was not cut gives the version's content, which is within the cap. -/
theorem steady_readFile (hfd : v.holds file.fd = true) (maxBytes : Nat) :
    Steady v (readFile file { maxBytes }) fun read =>
      read.truncated = false → read.text = v.content ∧ v.content.length ≤ maxBytes := by
  have hprint := steady_computeFileFingerprint hfd
  have hcalm := calm_computeFileFingerprint file
  have hcalm' : ∀ pre, Along Calm (dispatchRead file { maxBytes } pre) := calm_dispatchRead file _
  have hafter : ∀ pre result, Along Calm (computeFileFingerprint file >>= fun post =>
      comparePrints file { maxBytes } pre post result) :=
    fun pre result => Along.bind hcalm fun post => calm_comparePrints file _ pre post result
  unfold readFile
  split
  · exact Steady.throw
  · refine hprint.bind hcalm (fun pre => Along.bind (hcalm' pre) (hafter pre)) ?_
    rintro pre rfl
    refine Steady.bind (hcalm' _) (hafter _) (steady_readWhole hfd maxBytes) fun result hresult =>
      ?_
    refine hprint.bind hcalm (fun post => calm_comparePrints file _ _ post result) ?_
    rintro post rfl
    -- both fingerprints are the version's, so the first read stands
    rw [comparePrints, if_pos rfl]
    exact Steady.pure hresult

end Steady

end Orangutan.Io
