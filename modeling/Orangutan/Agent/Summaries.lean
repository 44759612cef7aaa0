import Orangutan.Agent.Loop

/-!
# The grammar of a summary

The scanner looks for each heading from the end of the one before it, wherever a line begins or
not. What it accepts is the greedy decomposition into six sections, none of them blank.
-/

namespace Orangutan.Agent

set_option autoImplicit false

open Orangutan.Core Orangutan.Core.Str Orangutan.Provider

/-- The needle stands behind `before`, and nowhere earlier. -/
structure FirstAt (needle before after : Bytes) : Prop where
  here : needle <+: after
  earlier : ∀ k < before.length, ¬ needle <+: (before ++ after).drop k

theorem FirstAt.cons {needle before after : Bytes} {b : UInt8} (h : FirstAt needle before after)
    (hb : ¬ needle <+: b :: (before ++ after)) : FirstAt needle (b :: before) after := by
  refine ⟨h.here, fun k hk => ?_⟩
  cases k with
  | zero => exact hb
  | succ k => exact h.earlier k (Nat.lt_of_succ_lt_succ hk)

theorem splitBefore_iff (needle t before after : Bytes) :
    splitBefore needle t = some (before, after) ↔ t = before ++ after ∧
      FirstAt needle before after := by
  induction t generalizing before with
  | nil =>
    unfold splitBefore
    constructor
    · intro h
      split at h
      · next hprefix =>
        cases h
        exact ⟨rfl, List.isPrefixOf_iff_prefix.mp hprefix,
          fun k hk => absurd hk (Nat.not_lt_zero k)⟩
      · cases h
    · rintro ⟨hnil, hfirst⟩
      obtain ⟨rfl, rfl⟩ := List.append_eq_nil_iff.mp hnil.symm
      rw [if_pos (List.isPrefixOf_iff_prefix.mpr hfirst.here)]
  | cons b rest ih =>
    unfold splitBefore
    split
    · next hprefix =>
      have hprefix := List.isPrefixOf_iff_prefix.mp hprefix
      constructor
      · intro h
        cases h
        exact ⟨rfl, hprefix, fun k hk => absurd hk (Nat.not_lt_zero k)⟩
      · rintro ⟨heq, hfirst⟩
        cases before with
        | nil =>
          obtain rfl := heq
          rfl
        | cons c before =>
          rw [heq] at hprefix
          exact absurd hprefix (hfirst.earlier 0 (Nat.succ_pos _))
    · next hprefix =>
      have hprefix : ¬ needle <+: b :: rest := fun h => hprefix (List.isPrefixOf_iff_prefix.mpr h)
      constructor
      · intro h
        obtain ⟨⟨before', after'⟩, hfound, heq⟩ := Option.map_eq_some_iff.mp h
        cases heq
        obtain ⟨rfl, hfirst⟩ := (ih before').mp hfound
        exact ⟨rfl, hfirst.cons hprefix⟩
      · rintro ⟨heq, hfirst⟩
        cases before with
        | nil =>
          rw [List.nil_append] at heq
          subst heq
          exact absurd hfirst.here hprefix
        | cons c before =>
          obtain ⟨rfl, hrest⟩ := List.cons.inj heq
          have hshorter : FirstAt needle before after :=
            ⟨hfirst.here, fun k hk => hfirst.earlier (k + 1) (Nat.succ_lt_succ hk)⟩
          rw [(ih before).mpr ⟨hrest, hshorter⟩]
          rfl

theorem splitBefore_none {needle t : Bytes} (h : splitBefore needle t = none) (before after : Bytes)
    (ht : t = before ++ after) :
    ¬ FirstAt needle before after := by
  intro hfirst
  rw [(splitBefore_iff needle t before after).mpr ⟨ht, hfirst⟩] at h
  cases h

/-- Each heading at its first occurrence after the one before it; the last section takes the rest.
-/
inductive Greedy : List Bytes → Bytes → List Bytes → Prop
  | last (heading body : Bytes) : Greedy [heading] (heading ++ body) [body]
  | next {heading body following t : Bytes} {rest bodies : List Bytes}
      (first : FirstAt following body t)
      (h : Greedy (following :: rest) t bodies) :
        Greedy (heading :: following :: rest) (heading ++ (body ++ t)) (body :: bodies)

namespace Greedy

variable {hs bodies : List Bytes} {t : Bytes}

theorem length_eq (h : Greedy hs t bodies) : bodies.length = hs.length := by
  induction h with
  | last => rfl
  | next _ _ ih => rw [List.length_cons, ih, List.length_cons, List.length_cons, List.length_cons]

/-- The headings stand in the text in their order, each before its section. -/
theorem spelled (h : Greedy hs t bodies) : (List.zipWith (· ++ ·) hs bodies).flatten = t := by
  induction h with
  | last => simp
  | next _ _ ih => rw [List.zipWith_cons_cons, List.flatten_cons, ih, List.append_assoc]

theorem starts {heading : Bytes} (h : Greedy (heading :: hs) t bodies) : heading <+: t := by
  cases h with
  | last => exact List.prefix_append _ _
  | next => exact List.prefix_append _ _

/-- The first occurrence decides each section. -/
theorem unique {bodies' : List Bytes} (h : Greedy hs t bodies) (h' : Greedy hs t bodies') :
    bodies = bodies' := by
  induction h generalizing bodies' with
  | last heading body =>
    generalize hu : heading ++ body = u at h'
    cases h' with
    | last =>
      obtain rfl := List.append_cancel_left hu
      rfl
  | @next heading body following t rest bodies hfirst h ih =>
    generalize hu : heading ++ (body ++ t) = u at h'
    cases h' with
    | @next _ body' _ t' _ bodies' hfirst' h' =>
      have hrest := List.append_cancel_left hu
      have hfound := (splitBefore_iff following (body ++ t) body t).mpr ⟨rfl, hfirst⟩
      rw [(splitBefore_iff following (body ++ t) body' t').mpr ⟨hrest, hfirst'⟩] at hfound
      cases hfound
      rw [ih h']

end Greedy

theorem isBlank_false_iff (t : Bytes) : isBlank t = false ↔ ∃ c ∈ t, c ∉ text " \t\r\n" := by
  have hspace : ∀ c : UInt8, (c == 0x20 || c == 0x09 || c == 0x0D || c == 0x0A) = false ↔
      c ∉ text " \t\r\n" := by
    intro c
    rw [show text " \t\r\n" = [0x20, 0x09, 0x0D, 0x0A] by decide]
    simp [and_assoc]
  unfold isBlank
  rw [List.all_eq_false]
  simp only [Bool.not_eq_true, hspace]

theorem prefix_of_not_bang {heading t : Bytes} (h : ¬ (!heading.isPrefixOf t) = true) :
    heading <+: t :=
  List.isPrefixOf_iff_prefix.mp (by rwa [Bool.not_eq_true, Bool.not_eq_false'] at h)

theorem not_prefix_of_bang {heading t : Bytes} (h : (!heading.isPrefixOf t) = true) :
    ¬ heading <+: t := by
  intro hprefix
  rw [List.isPrefixOf_iff_prefix.mpr hprefix] at h
  cases h

/-- The loop accepts exactly the greedy decompositions without a blank section. -/
theorem checkSections_iff (heading : Bytes) (rest : List Bytes) (t : Bytes) :
    checkSections (heading :: rest) t = .ok () ↔ ∃ bodies, Greedy (heading :: rest) t bodies ∧
      ∀ b ∈ bodies, isBlank b = false := by
  induction rest generalizing heading t with
  | nil =>
    unfold checkSections
    split
    · next hprefix =>
      refine ⟨fun h => (by cases h), ?_⟩
      rintro ⟨bodies, hgreedy, -⟩
      exact absurd hgreedy.starts (not_prefix_of_bang hprefix)
    · next hprefix =>
      obtain ⟨body, rfl⟩ := prefix_of_not_bang hprefix
      rw [List.drop_left]
      constructor
      · intro h
        split at h
        · cases h
        · next hblank => exact ⟨[body], .last heading body,
            fun b hb => by simpa [List.mem_singleton.mp hb] using hblank⟩
      · rintro ⟨bodies, hgreedy, hfull⟩
        obtain rfl := hgreedy.unique (.last heading body)
        rw [hfull body (List.mem_singleton_self body)]
        rfl
  | cons following rest ih =>
    unfold checkSections
    split
    · next hprefix =>
      refine ⟨fun h => (by cases h), ?_⟩
      rintro ⟨bodies, hgreedy, -⟩
      exact absurd hgreedy.starts (not_prefix_of_bang hprefix)
    · next hprefix =>
      obtain ⟨u, rfl⟩ := prefix_of_not_bang hprefix
      rw [List.drop_left]
      have hcases : ∀ {bodies}, Greedy (heading :: following :: rest) (heading ++ u) bodies →
        ∃ body t bodies',
          u = body ++ t ∧ FirstAt following body t ∧ Greedy (following :: rest) t bodies' ∧
            bodies = body :: bodies' := by
        intro bodies hgreedy
        generalize hu : heading ++ u = v at hgreedy
        cases hgreedy with
        | next hfirst h => exact ⟨_, _, _, List.append_cancel_left hu, hfirst, h, rfl⟩
      cases hfound : splitBefore following u with
      | none =>
        refine ⟨fun h => (by cases h), ?_⟩
        rintro ⟨bodies, hgreedy, -⟩
        obtain ⟨body, t, -, hu, hfirst, -, -⟩ := hcases hgreedy
        exact absurd hfirst (splitBefore_none hfound body t hu)
      | some found =>
        obtain ⟨body, t⟩ := found
        obtain ⟨rfl, hfirst⟩ := (splitBefore_iff following u body t).mp hfound
        dsimp only
        have ih := ih following t
        constructor
        · intro h
          split at h
          · cases h
          · next hblank =>
            obtain ⟨bodies, hgreedy, hfull⟩ := ih.mp h
            exact ⟨body :: bodies, .next hfirst hgreedy,
              List.forall_mem_cons.mpr ⟨by simpa using hblank, hfull⟩⟩
        · rintro ⟨bodies, hgreedy, hfull⟩
          obtain ⟨body', t', bodies', hu, hfirst', hgreedy', rfl⟩ := hcases hgreedy
          have hsame := (splitBefore_iff following _ body' t').mpr ⟨hu, hfirst'⟩
          rw [hfound] at hsame
          cases hsame
          obtain ⟨hbody, hfull⟩ := List.forall_mem_cons.mp hfull
          rw [hbody, if_neg Bool.false_ne_true]
          exact ih.mpr ⟨bodies', hgreedy', hfull⟩

/-- What the grammar asks of a summary. -/
structure SummaryGrammar (s : Bytes) (maxBytes : UInt64) : Prop where
  valid : isValidUtf8 s = true
  noNul : (0 : UInt8) ∉ s
  short : s.length ≤ maxBytes.toNat
  starts : text "Objective:\n" <+: s
  sections : ∃ bodies, Greedy headings s bodies ∧ bodies.length = 6 ∧ ∀ b ∈ bodies, ∃ c ∈ b,
    c ∉ text " \t\r\n"

theorem validateContextSummary_iff (s : Bytes) (maxBytes : UInt64) :
    validateContextSummary s maxBytes = .ok () ↔ SummaryGrammar s maxBytes := by
  have hsections : checkSections headings s = .ok () ↔ ∃ bodies, Greedy headings s bodies ∧
      ∀ b ∈ bodies, isBlank b = false :=
    checkSections_iff _ _ s
  unfold validateContextSummary
  split
  · next hbounds =>
    refine ⟨fun h => (by cases h), fun h => ?_⟩
    simp [h.valid, h.noNul, Nat.not_lt.mpr h.short] at hbounds
  · next hbounds =>
    simp only [Bool.or_eq_true, decide_eq_true_eq, not_or, not_lt, Bool.not_eq_eq_eq_not,
      Bool.not_true, Bool.not_eq_false, List.contains_iff_mem] at hbounds
    obtain ⟨⟨hshort, hvalid⟩, hnul⟩ := hbounds
    rw [hsections]
    simp only [isBlank_false_iff]
    constructor
    · rintro ⟨bodies, hgreedy, hfull⟩
      exact ⟨hvalid, hnul, hshort, hgreedy.starts, bodies, hgreedy, hgreedy.length_eq, hfull⟩
    · rintro ⟨-, -, -, -, bodies, hgreedy, -, hfull⟩
      exact ⟨bodies, hgreedy, hfull⟩

/-- The summary of a checkpoint is not what a turn refuses. -/
theorem validateInputs_summary (env : TurnEnv) (inputs : RunTurnInputs)
    (hsummary : validateContextSummary inputs.checkpoint.summary inputs.context.summaryMaxBytes =
      .ok ())
    (hcovered : 0 ≤ inputs.checkpoint.coveredSequence) (hend : inputs.checkpoint.coveredSequence ≤
      inputs.historyEnd)
    (hrevision : 0 ≤ inputs.checkpoint.revision) :
    validateInputs env inputs = validateInputs env { inputs with checkpoint := {} } := by
  have hne : inputs.checkpoint.summary.isEmpty = false := by
    have hstarts := ((validateContextSummary_iff _ _).mp hsummary).starts
    cases hempty : inputs.checkpoint.summary with
    | nil =>
      rw [hempty] at hstarts
      exact absurd (List.prefix_nil.mp hstarts) (by decide)
    | cons b rest => rfl
  unfold validateInputs
  simp only [hne, hsummary, Bool.and_false, Bool.or_false, Int.not_lt.mpr hcovered,
    Int.not_lt.mpr hend, Int.not_lt.mpr hrevision, Int.not_lt.mpr (le_trans hcovered hend)]
  rfl

/-- What is accepted, and what follows for an accepted summary. -/
theorem summary_grammar (s : Bytes) (maxBytes : UInt64) :
    (validateContextSummary s maxBytes = .ok () ↔ SummaryGrammar s maxBytes) ∧
      (validateContextSummary s maxBytes = .ok () →
        (∀ larger, maxBytes ≤ larger → validateContextSummary s larger = .ok ()) ∧
          (∃! bodies, Greedy headings s bodies) ∧
          (∃ bodies, bodies.length = 6 ∧ (List.zipWith (· ++ ·) headings bodies).flatten = s) ∧
          ∀ (env : TurnEnv) (inputs : RunTurnInputs), inputs.checkpoint.summary = s →
            inputs.context.summaryMaxBytes = maxBytes →
            0 ≤ inputs.checkpoint.coveredSequence →
              inputs.checkpoint.coveredSequence ≤ inputs.historyEnd →
            0 ≤ inputs.checkpoint.revision →
            validateInputs env inputs = validateInputs env { inputs with checkpoint := {} }) := by
  refine ⟨validateContextSummary_iff s maxBytes, fun hok => ?_⟩
  have hgrammar := (validateContextSummary_iff s maxBytes).mp hok
  obtain ⟨bodies, hgreedy, hlength, -⟩ := hgrammar.sections
  refine ⟨fun larger hlarger => ?_, ⟨bodies, hgreedy, fun bodies' h' => h'.unique hgreedy⟩,
    ⟨bodies, hlength, hgreedy.spelled⟩, fun env inputs hsummary hmax hcovered hend hrevision => ?_⟩
  · exact (validateContextSummary_iff s larger).mpr
      { hgrammar with short := le_trans hgrammar.short (UInt64.le_iff_toNat_le.mp hlarger) }
  · exact validateInputs_summary env inputs (by rw [hsummary, hmax, hok]) hcovered hend hrevision

/-- A heading inside a body does not end the section before its own heading came. -/
def quotedHeading : Bytes :=
  text
    "Objective:\nKeep Pending:\nas it is\nConstraints:\nNone\nDecisions:\nNone\nCompleted:\nNone\n" ++
    text "Pending:\nNone\nReferences:\nNone\n"

theorem summary_grammar_quoted : ∃ bodies, Greedy headings quotedHeading bodies ∧
    bodies.length = 6 := by
  have hok : validateContextSummary quotedHeading 8192 = .ok () := by decide +kernel
  obtain ⟨-, ⟨bodies, hgreedy, -⟩, -, -⟩ := (summary_grammar quotedHeading 8192).2 hok
  exact ⟨bodies, hgreedy, hgreedy.length_eq⟩

end Orangutan.Agent
