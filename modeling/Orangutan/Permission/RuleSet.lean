import Orangutan.Core.Json
import Orangutan.Lib.Entries

/-!
# Permission rules

A decision is computed from rules, mode, tool name, input and the required
capabilities. Decisions form a meet semilattice once their reasons are forgotten: deny
is least, allow is greatest, and asks are ordered by their limits.
-/

namespace Orangutan.Permission

set_option autoImplicit false

open Orangutan.Core

inductive Capability
  | readFile
  | writeFile
  | editFile
  | deletePath
  | listDirectory
  | egressHttp
  | egressWebsocket
  | spawnSubprocess
  | signalSubprocess
  | externalMcp
  | runtimeLoader
  deriving DecidableEq, Repr

def Capability.name : Capability → Bytes
  | readFile => text "read_file"
  | writeFile => text "write_file"
  | editFile => text "edit_file"
  | deletePath => text "delete_path"
  | listDirectory => text "list_directory"
  | egressHttp => text "egress_http"
  | egressWebsocket => text "egress_websocket"
  | spawnSubprocess => text "spawn_subprocess"
  | signalSubprocess => text "signal_subprocess"
  | externalMcp => text "external_mcp"
  | runtimeLoader => text "runtime_loader"

inductive Verdict
  | allow
  | deny
  | ask
  deriving DecidableEq, Repr

def Verdict.name : Verdict → Bytes
  | allow => text "allow"
  | deny => text "deny"
  | ask => text "ask"

inductive Mode
  | strict
  | default
  | permissive
  | sandboxed
  deriving DecidableEq, Repr

def Mode.name : Mode → Bytes
  | strict => text "strict"
  | default => text "default"
  | permissive => text "permissive"
  | sandboxed => text "sandboxed"

/-- A compiled expression: its source and what it accepts, which the regular expression
library decides. -/
structure InputPattern where
  pattern : Bytes
  accepts : Bytes → Bool

structure Rule where
  verdict : Verdict := .deny
  toolPattern : Bytes
  capability : Option Capability := none
  inputPattern : Option InputPattern := none
  replayMax : Nat := 8
  approvalTtl : Int := 3600

structure Decision where
  verdict : Verdict := .deny
  reason : Bytes
  replayMax : Nat := 8
  approvalTtl : Int := 3600
  deriving DecidableEq

/-- Rules that are borrowed for an execution. -/
structure PolicyView where
  rules : List Rule
  mode : Mode := .strict

/-- The loop of `glob_match`, which ends at the end of the text: positions in the pattern
and in the text, and the last star with the place in the text where it gave up. -/
def globLoop (pattern text : Bytes) (pi ti : Nat) (star : Option Nat) (mark : Nat) (h : mark ≤ ti) :
    Option Nat :=
  if _hti : ti < text.length then
    if pattern[pi]? = some 0x2a then
      globLoop pattern text (pi + 1) ti (some pi) ti (Nat.le_refl ti)
    else if pi < pattern.length ∧ pattern[pi]? = text[ti]? then
      globLoop pattern text (pi + 1) (ti + 1) star mark (Nat.le_succ_of_le h)
    else
      match star with
      | some s => globLoop pattern text (s + 1) (mark + 1) (some s) (mark + 1) (Nat.le_refl _)
      | none => none
  else some pi
termination_by (text.length - mark, pattern.length - pi + (text.length - ti))
decreasing_by
  · have hpi : pi < pattern.length := by
      by_contra hge
      rename_i hstar
      rw [List.getElem?_eq_none (Nat.le_of_not_lt hge)] at hstar
      cases hstar
    rcases Nat.lt_or_eq_of_le h with hlt | rfl
    · exact Prod.Lex.left _ _ (by omega)
    · exact Prod.Lex.right _ (by omega)
  · rename_i hsame
    exact Prod.Lex.right _ (by omega)
  · exact Prod.Lex.left _ _ (by omega)

def globMatch (pattern text : Bytes) : Bool :=
  match globLoop pattern text 0 0 none 0 (Nat.le_refl 0) with
  | none => false
  | some pi => (pattern.drop pi).dropWhile (· == 0x2a) == []

def modeDefaultVerdict : Mode → Verdict
  | .strict | .sandboxed => .deny
  | .default => .ask
  | .permissive => .allow

def formatReason (index : Nat) (rule : Rule) : Bytes :=
  text "rule #" ++ decimal index ++ text " (" ++ rule.verdict.name ++ text ": " ++
    rule.toolPattern ++
    (match rule.capability with
      | some c => text " capability=" ++ c.name
      | none => []) ++
    (match rule.inputPattern with
      | some p => text " input=~\"" ++ p.pattern ++ text "\""
      | none => []) ++
    text ")"

/-- The rule is about the call. -/
def Rule.applies (rule : Rule) (toolName input : Bytes) (capability : Option Capability) : Bool :=
  globMatch rule.toolPattern toolName &&
    (rule.capability.isNone || decide (rule.capability = capability)) &&
    (match rule.inputPattern with
      | none => true
      | some p => p.accepts input)

/-- The first rule with that verdict. -/
def firstMatch (rules : List Rule) (toolName input : Bytes) (capability : Option Capability)
    (verdict : Verdict) :
    Option Decision :=
  (Lib.findEntry (fun rule => decide (rule.verdict = verdict) &&
    rule.applies toolName input capability) rules).map
    fun found =>
      { verdict
        reason := formatReason found.1 found.2
        replayMax := found.2.replayMax
        approvalTtl := found.2.approvalTtl }

def evaluateRequirement (rules : List Rule) (toolName input : Bytes)
    (capability : Option Capability) (mode : Mode) :
    Decision :=
  match [Verdict.deny, .allow, .ask].findSome? (firstMatch rules toolName input capability) with
  | some decision => decision
  | none => { verdict := modeDefaultVerdict mode, reason := text "default by mode=" ++ mode.name }

def intersect (left right : Decision) : Decision :=
  if left.verdict = .deny then left
  else if right.verdict = .deny then right
  else if right.verdict = .ask then
    if left.verdict = .ask then
      { left with
        replayMax := min left.replayMax right.replayMax
        approvalTtl := min left.approvalTtl right.approvalTtl }
    else right
  else left

/-- The loop over the capabilities after the first. -/
def combine (evaluate : Capability → Decision) : Decision → List Capability → Decision
  | combined, [] => combined
  | combined, capability :: rest =>
    if combined.verdict = .deny then combined
    else combine evaluate (intersect combined (evaluate capability)) rest

def evaluate (rules : List Rule) (toolName input : Bytes) (requiredCapabilities : List Capability)
    (mode : Mode) :
    Decision :=
  match requiredCapabilities with
  | [] => evaluateRequirement rules toolName input none mode
  | first :: rest =>
    combine (fun c => evaluateRequirement rules toolName input (some c) mode)
      (evaluateRequirement rules toolName input (some first) mode) rest

/-- How permissive a verdict is. -/
def Verdict.rank : Verdict → Nat
  | deny => 0
  | ask => 1
  | allow => 2

/-- The less permissive of two verdicts. -/
def Verdict.meet (a b : Verdict) : Verdict := if a.rank ≤ b.rank then a else b

/-- Some rule that applies has the verdict. -/
def given (rules : List Rule) (toolName input : Bytes) (capability : Option Capability)
    (verdict : Verdict) : Bool :=
  rules.any fun rule => decide (rule.verdict = verdict) && rule.applies toolName input capability

/-- What the rules that apply to one requirement say together. -/
def ruling (rules : List Rule) (toolName input : Bytes) (capability : Option Capability)
    (mode : Mode) : Verdict :=
  if given rules toolName input capability .deny then .deny
  else if given rules toolName input capability .allow then .allow
  else if given rules toolName input capability .ask then .ask
  else modeDefaultVerdict mode

/-- The requirements of a call: one for each capability, or one without. -/
def requirements (capabilities : List Capability) : List (Option Capability) :=
  if capabilities.isEmpty then [none] else capabilities.map some

section

variable {rules : List Rule} {toolName input : Bytes} {capability : Option Capability} {mode : Mode}

theorem firstMatch_isSome (verdict : Verdict) :
    (firstMatch rules toolName input capability verdict).isSome =
      given rules toolName input capability verdict := by
  rw [firstMatch, Option.isSome_map, Bool.eq_iff_iff, given, List.any_eq_true]
  constructor
  · intro h
    obtain ⟨found, hfound⟩ := Option.isSome_iff_exists.mp h
    obtain ⟨hat, hp⟩ := Lib.findEntry_some hfound
    exact ⟨found.2, List.mem_of_getElem? hat, hp⟩
  · rintro ⟨rule, hrule, hp⟩
    obtain ⟨i, found, hfound⟩ := Lib.findEntry_isSome
      (p := fun rule => decide (rule.verdict = verdict) &&
        rule.applies toolName input capability) hrule hp
    rw [hfound]
    rfl

theorem firstMatch_verdict {verdict : Verdict} {decision : Decision}
    (h : firstMatch rules toolName input capability verdict = some decision) : decision.verdict =
      verdict := by
  obtain ⟨found, -, rfl⟩ := Option.map_eq_some_iff.mp h
  rfl

/-- Which verdict is found first tells which of them some rule gives. -/
theorem evaluateRequirement_verdict :
    (evaluateRequirement rules toolName input capability mode).verdict =
      ruling rules toolName input capability mode := by
  unfold evaluateRequirement ruling
  simp only [List.findSome?_cons, List.findSome?_nil, ← firstMatch_isSome]
  cases hdeny : firstMatch rules toolName input capability .deny with
  | some decision => exact firstMatch_verdict hdeny
  | none =>
    cases hallow : firstMatch rules toolName input capability .allow with
    | some decision => exact firstMatch_verdict hallow
    | none =>
      cases hask : firstMatch rules toolName input capability .ask with
      | some decision => exact firstMatch_verdict hask
      | none => rfl

theorem intersect_verdict (left right : Decision) :
    (intersect left right).verdict = left.verdict.meet right.verdict := by
  unfold intersect Verdict.meet
  cases hl : left.verdict <;> cases hr : right.verdict <;> simp [hl, hr, Verdict.rank]

theorem deny_meet (a : Verdict) : Verdict.meet .deny a = .deny := by
  cases a <;> rfl

theorem combine_verdict (f : Capability → Decision) (combined : Decision) (rest : List Capability) :
    (combine f combined rest).verdict =
      (rest.map fun c => (f c).verdict).foldl Verdict.meet combined.verdict := by
  induction rest generalizing combined with
  | nil => rfl
  | cons c rest ih =>
    rw [combine, List.map_cons, List.foldl_cons]
    split
    · next hdeny =>
      -- the loop stops early, and a denial absorbs the rest
      have hstop : ∀ l : List Verdict, l.foldl Verdict.meet .deny = .deny := by
        intro l
        induction l with
        | nil => rfl
        | cons v l ih => rw [List.foldl_cons, deny_meet, ih]
      rw [hdeny, deny_meet, hstop]
    · rw [ih, intersect_verdict]

theorem evaluate_verdict (rules : List Rule) (toolName input : Bytes)
    (capabilities : List Capability) (mode : Mode) :
    (evaluate rules toolName input capabilities mode).verdict =
      ((requirements capabilities).map fun c => ruling rules toolName input c mode).foldl
        Verdict.meet .allow := by
  have hallow : ∀ v : Verdict, Verdict.meet .allow v = v := by
    intro v
    cases v <;> rfl
  cases capabilities with
  | nil =>
    show _ = Verdict.meet .allow (ruling rules toolName input none mode)
    rw [hallow]
    exact evaluateRequirement_verdict
  | cons first rest =>
    show (combine _ _ rest).verdict = (List.map _ (rest.map some)).foldl Verdict.meet
      (Verdict.meet .allow _)
    rw [combine_verdict, hallow, List.map_map, evaluateRequirement_verdict]
    refine congrArg (fun l => List.foldl Verdict.meet _ l) (List.map_congr_left fun c _ => ?_)
    exact evaluateRequirement_verdict

/-- A decision without its reason: deny below every ask below allow, asks by their
limits. -/
abbrev Grade := WithBot (WithTop (Nat × Int))

def Decision.grade (d : Decision) : Grade :=
  match d.verdict with
  | .deny => ⊥
  | .ask => (((d.replayMax, d.approvalTtl) : Nat × Int) : WithTop (Nat × Int))
  | .allow => ⊤

theorem grade_intersect (left right : Decision) :
    (intersect left right).grade = left.grade ⊓ right.grade := by
  unfold intersect Decision.grade
  cases hl : left.verdict <;> cases hr : right.verdict <;> simp [hl, hr]
  rfl

/-- The meet of many grades. -/
def meetAll (l : List Grade) : Grade := l.foldr (· ⊓ ·) ⊤

theorem le_meetAll {a : Grade} {l : List Grade} : a ≤ meetAll l ↔ ∀ x ∈ l, a ≤ x := by
  induction l with
  | nil => simp [meetAll]
  | cons x l ih =>
    rw [meetAll, List.foldr_cons, le_inf_iff, List.forall_mem_cons]
    exact and_congr_right fun _ => ih

/-- The meet depends on which grades there are, and on nothing else. -/
theorem meetAll_congr {l l' : List Grade} (h : ∀ x, x ∈ l ↔ x ∈ l') : meetAll l = meetAll l' :=
  le_antisymm (le_meetAll.mpr fun x hx => le_meetAll.mp le_rfl x ((h x).mpr hx))
    (le_meetAll.mpr fun x hx => le_meetAll.mp le_rfl x ((h x).mp hx))

theorem grade_combine (f : Capability → Decision) (combined : Decision) (rest : List Capability) :
    (combine f combined rest).grade = combined.grade ⊓ meetAll (rest.map fun c => (f c).grade) := by
  induction rest generalizing combined with
  | nil => exact (inf_top_eq _).symm
  | cons c rest ih =>
    rw [combine]
    split
    · next hdeny =>
      have hbot : combined.grade = ⊥ := by
        rw [Decision.grade, hdeny]
      rw [hbot, bot_inf_eq]
    · rw [ih, grade_intersect, inf_assoc]
      rfl

theorem grade_evaluate (rules : List Rule) (toolName input : Bytes) (capabilities : List Capability)
    (mode : Mode) :
    (evaluate rules toolName input capabilities mode).grade =
      meetAll ((requirements capabilities).map
        fun c => (evaluateRequirement rules toolName input c mode).grade) := by
  cases capabilities with
  | nil => exact (inf_top_eq _).symm
  | cons first rest =>
    show (combine _ _ rest).grade = _ ⊓ meetAll ((rest.map some).map _)
    rw [grade_combine, List.map_map]
    rfl

theorem rank_le_of_grade_le {d d' : Decision} (h : d.grade ≤ d'.grade) :
    d.verdict.rank ≤ d'.verdict.rank := by
  unfold Decision.grade at h
  cases hd : d.verdict <;> cases hd' : d'.verdict <;> simp [hd, hd', Verdict.rank] at h ⊢

theorem limits_le_of_grade_le {d d' : Decision} (h : d.grade ≤ d'.grade) (hd : d.verdict = .ask)
    (hd' : d'.verdict = .ask) : d.replayMax ≤ d'.replayMax ∧ d.approvalTtl ≤ d'.approvalTtl := by
  rw [Decision.grade, Decision.grade, hd, hd'] at h
  exact Prod.mk_le_mk.mp (WithTop.coe_le_coe.mp (WithBot.coe_le_coe.mp h))

theorem grade_eq_ask {d : Decision} {r : Nat} {t : Int} :
    d.grade = (((r, t) : Nat × Int) : WithTop (Nat × Int)) ↔ d.verdict = .ask ∧ d.replayMax = r ∧
      d.approvalTtl = t := by
  unfold Decision.grade
  cases hd : d.verdict with
  | deny => simp
  | allow => simp
  | ask =>
    refine ⟨fun h => ⟨rfl, ?_⟩, fun h => ?_⟩
    · exact Prod.mk.inj (WithTop.coe_injective (WithBot.coe_injective h))
    · rw [h.2.1, h.2.2]

theorem grade_cases (x : Grade) :
    x = ⊥ ∨ x = ⊤ ∨ ∃ (r : Nat) (t : Int), x = (((r, t) : Nat × Int) : WithTop (Nat × Int)) := by
  induction x using WithBot.recBotCoe with
  | bot => exact .inl rfl
  | coe y =>
    induction y using WithTop.recTopCoe with
    | top => exact .inr (.inl rfl)
    | coe z => exact .inr (.inr ⟨z.1, z.2, rfl⟩)

/-- The limits of a meet of asks are the least there are. -/
theorem meetAll_ask {l : List Grade} {r : Nat} {t : Int}
    (h : meetAll l = (((r, t) : Nat × Int) : WithTop (Nat × Int))) :
    (∃ t', ((((r, t') : Nat × Int) : WithTop (Nat × Int)) : Grade) ∈ l) ∧
    (∃ r', ((((r', t) : Nat × Int) : WithTop (Nat × Int)) : Grade) ∈ l) := by
  induction l generalizing r t with
  | nil => cases h
  | cons x l ih =>
    have h : x ⊓ meetAll l = (((r, t) : Nat × Int) : WithTop (Nat × Int)) := h
    have hkept : ∀ {r t}, meetAll l = (((r, t) : Nat × Int) : WithTop (Nat × Int)) →
        (∃ t', ((((r, t') : Nat × Int) : WithTop (Nat × Int)) : Grade) ∈ x :: l) ∧
        (∃ r', ((((r', t) : Nat × Int) : WithTop (Nat × Int)) : Grade) ∈ x :: l) := by
      intro r t hl
      obtain ⟨⟨t', ht'⟩, ⟨r', hr'⟩⟩ := ih hl
      exact ⟨⟨t', List.mem_cons_of_mem _ ht'⟩, ⟨r', List.mem_cons_of_mem _ hr'⟩⟩
    rcases grade_cases x with rfl | rfl | ⟨rx, tx, rfl⟩
    · rw [bot_inf_eq] at h
      cases h
    · exact hkept ((top_inf_eq _).symm.trans h)
    · rcases grade_cases (meetAll l) with hm | hm | ⟨rm, tm, hm⟩
      · rw [hm, inf_bot_eq] at h
        cases h
      · rw [hm, inf_top_eq] at h
        cases h
        exact ⟨⟨t, List.mem_cons_self⟩, ⟨r, List.mem_cons_self⟩⟩
      · obtain ⟨⟨t', ht'⟩, ⟨r', hr'⟩⟩ := hkept hm
        rw [hm] at h
        obtain ⟨rfl, rfl⟩ : min rx rm = r ∧ min tx tm = t :=
          Prod.mk.inj (WithTop.coe_injective (WithBot.coe_injective h))
        constructor
        · rcases min_choice rx rm with hmin | hmin
          · exact ⟨tx, by rw [hmin]; exact List.mem_cons_self⟩
          · exact ⟨t', by rw [hmin]; exact ht'⟩
        · rcases min_choice tx tm with hmin | hmin
          · exact ⟨rx, by rw [hmin]; exact List.mem_cons_self⟩
          · exact ⟨r', by rw [hmin]; exact hr'⟩

/-- Two decisions agree in their verdicts and, when they ask, in their limits. -/
def Decision.Agrees (d d' : Decision) : Prop :=
  d.verdict = d'.verdict ∧
    (d.verdict = .ask → d.replayMax = d'.replayMax ∧ d.approvalTtl = d'.approvalTtl)

/-- The first decision permits no more than the second, and asks with no wider limits. -/
def Decision.Within (d d' : Decision) : Prop :=
  d.verdict.rank ≤ d'.verdict.rank ∧
    (d.verdict = .ask → d'.verdict = .ask → d.replayMax ≤ d'.replayMax ∧
      d.approvalTtl ≤ d'.approvalTtl)

theorem agrees_of_grade_eq {d d' : Decision} (h : d.grade = d'.grade) : d.Agrees d' := by
  have hrank := Nat.le_antisymm (rank_le_of_grade_le h.le) (rank_le_of_grade_le h.ge)
  have hverdict : d.verdict = d'.verdict := by
    cases hd : d.verdict <;> cases hd' : d'.verdict <;> simp [hd, hd', Verdict.rank] at hrank ⊢
  refine ⟨hverdict, fun hd => ?_⟩
  have hle := limits_le_of_grade_le h.le hd (hverdict ▸ hd)
  have hge := limits_le_of_grade_le h.ge (hverdict ▸ hd) hd
  exact ⟨Nat.le_antisymm hle.1 hge.1, le_antisymm hle.2 hge.2⟩

theorem within_of_grade_le {d d' : Decision} (h : d.grade ≤ d'.grade) : d.Within d' :=
  ⟨rank_le_of_grade_le h, limits_le_of_grade_le h⟩

theorem mem_requirements {c : Option Capability} {capabilities : List Capability}
    (hne : capabilities ≠ []) :
    c ∈ requirements capabilities ↔ ∃ k ∈ capabilities, some k = c := by
  rw [requirements, if_neg (by simpa using hne), List.mem_map]

/-- Only which capabilities are required matters, not their order or number. -/
theorem grade_evaluate_congr (rules : List Rule) (toolName input : Bytes) (mode : Mode)
    {capabilities capabilities' : List Capability} (h : ∀ c, c ∈ capabilities ↔ c ∈ capabilities') :
    (evaluate rules toolName input capabilities mode).grade =
      (evaluate rules toolName input capabilities' mode).grade := by
  rw [grade_evaluate, grade_evaluate]
  refine meetAll_congr fun x => ?_
  have hsame : ∀ c, c ∈ requirements capabilities ↔ c ∈ requirements capabilities' := by
    intro c
    have hnil : capabilities = [] ↔ capabilities' = [] := by
      rw [List.eq_nil_iff_forall_not_mem, List.eq_nil_iff_forall_not_mem]
      exact forall_congr' fun k => not_congr (h k)
    by_cases hempty : capabilities = []
    · rw [hempty, hnil.mp hempty]
    · rw [mem_requirements hempty, mem_requirements (mt hnil.mpr hempty)]
      exact exists_congr fun k => and_congr_left fun _ => h k
  rw [List.mem_map, List.mem_map]
  exact exists_congr fun c => and_congr_left fun _ => hsame c

theorem grade_evaluate_insert (rules : List Rule) (toolName input : Bytes) (mode : Mode)
    {before after : List Capability} (c : Capability) (hne : before ++ after ≠ []) :
    (evaluate rules toolName input (before ++ c :: after) mode).grade ≤
      (evaluate rules toolName input (before ++ after) mode).grade := by
  rw [grade_evaluate, grade_evaluate, le_meetAll]
  intro x hx
  obtain ⟨k, hk, rfl⟩ := List.mem_map.mp hx
  refine le_meetAll.mp le_rfl _
    (List.mem_map_of_mem (f := fun c => (evaluateRequirement rules toolName input c mode).grade) ?_)
  rw [mem_requirements hne] at hk
  rw [mem_requirements (by simp)]
  obtain ⟨j, hj, rfl⟩ := hk
  exact ⟨j, by simp only [List.mem_append, List.mem_cons] at hj ⊢; tauto, rfl⟩

theorem ruling_perm {rules rules' : List Rule} (h : rules.Perm rules') (toolName input : Bytes)
    (capability : Option Capability) (mode : Mode) :
    ruling rules toolName input capability mode = ruling rules' toolName input capability mode := by
  unfold ruling given
  simp only [h.any_eq]

/-- One more denial turns the ruling into a denial or leaves it. -/
theorem ruling_deny {before after : List Rule} {rule : Rule} (hrule : rule.verdict = .deny)
    (toolName input : Bytes) (capability : Option Capability) (mode : Mode) :
    (ruling (before ++ rule :: after) toolName input capability mode).rank ≤
      (ruling (before ++ after) toolName input capability mode).rank := by
  have hother : ∀ verdict, verdict ≠ .deny →
    given (before ++ rule :: after) toolName input capability verdict =
      given (before ++ after) toolName input capability verdict := by
    intro verdict hne
    rw [given, given, List.any_append, List.any_append, List.any_cons, hrule,
      decide_eq_false (Ne.symm hne), Bool.false_and, Bool.false_or]
  unfold ruling
  rw [hother .allow (by decide), hother .ask (by decide)]
  by_cases hdeny : given (before ++ rule :: after) toolName input capability .deny = true
  · rw [if_pos hdeny]
    exact Nat.zero_le _
  · have hold : given (before ++ after) toolName input capability .deny = false := by
      rw [given, List.any_append, List.any_cons] at hdeny
      rw [given, List.any_append]
      simp only [Bool.or_eq_true, not_or, Bool.not_eq_true] at hdeny
      rw [hdeny.1, hdeny.2.2]
      rfl
    rw [if_neg hdeny, hold, if_neg Bool.false_ne_true]

theorem rank_foldl_le {l : List (Option Capability)} {f g : Option Capability → Verdict}
    {a b : Verdict} (hfg : ∀ c, (f c).rank ≤ (g c).rank) (hab : a.rank ≤ b.rank) :
    ((l.map f).foldl Verdict.meet a).rank ≤ ((l.map g).foldl Verdict.meet b).rank := by
  have hmeet : ∀ u v : Verdict, (u.meet v).rank = min u.rank v.rank := by
    intro u v
    cases u <;> cases v <;> rfl
  induction l generalizing a b with
  | nil => exact hab
  | cons c l ih =>
    refine ih ?_
    rw [hmeet, hmeet]
    exact min_le_min hab (hfg c)

/-- Decisions of several policies, the caller's own first. -/
def intersectAll (own : Decision) (ancestors : List Decision) : Decision :=
    ancestors.foldl intersect own

theorem grade_intersectAll (own : Decision) (ancestors : List Decision) :
    (intersectAll own ancestors).grade = own.grade ⊓ meetAll (ancestors.map (·.grade)) := by
  induction ancestors generalizing own with
  | nil => exact (inf_top_eq _).symm
  | cons d ancestors ih =>
    show (intersectAll (intersect own d) ancestors).grade = _
    rw [ih, grade_intersect, inf_assoc]
    rfl

/-- The limits of an ask are the least of those that ask. -/
theorem evaluate_ask_limits {rules : List Rule} {toolName input : Bytes}
    {capabilities : List Capability} {mode : Mode}
    (h : (evaluate rules toolName input capabilities mode).verdict = .ask) :
    IsLeast { r | ∃ c ∈ requirements capabilities,
      (evaluateRequirement rules toolName input c mode).verdict = .ask ∧
      (evaluateRequirement rules toolName input c mode).replayMax = r }
      (evaluate rules toolName input capabilities mode).replayMax ∧
    IsLeast { t | ∃ c ∈ requirements capabilities,
      (evaluateRequirement rules toolName input c mode).verdict = .ask ∧
      (evaluateRequirement rules toolName input c mode).approvalTtl = t }
      (evaluate rules toolName input capabilities mode).approvalTtl := by
  have hgrade := grade_evaluate rules toolName input capabilities mode
  have hbelow : ∀ c ∈ requirements capabilities,
    (evaluateRequirement rules toolName input c mode).verdict = .ask →
      (evaluate rules toolName input capabilities mode).replayMax ≤
        (evaluateRequirement rules toolName input c mode).replayMax ∧
      (evaluate rules toolName input capabilities mode).approvalTtl ≤
        (evaluateRequirement rules toolName input c mode).approvalTtl := by
    intro c hc hask
    refine limits_le_of_grade_le ?_ h hask
    exact le_meetAll.mp hgrade.le _
      (List.mem_map_of_mem (f :=
        fun c => (evaluateRequirement rules toolName input c mode).grade) hc)
  obtain ⟨⟨t, ht⟩, ⟨r, hr⟩⟩ := meetAll_ask (hgrade.symm.trans (grade_eq_ask.mpr ⟨h, rfl, rfl⟩))
  obtain ⟨c, hc, hgc⟩ := List.mem_map.mp ht
  obtain ⟨c', hc', hgc'⟩ := List.mem_map.mp hr
  obtain ⟨hask, hreplay, -⟩ := grade_eq_ask.mp hgc
  obtain ⟨hask', -, httl⟩ := grade_eq_ask.mp hgc'
  refine ⟨⟨⟨c, hc, hask, hreplay⟩, ?_⟩, ⟨c', hc', hask', httl⟩, ?_⟩
  · rintro _ ⟨k, hk, hkask, rfl⟩
    exact (hbelow k hk hkask).1
  · rintro _ ⟨k, hk, hkask, rfl⟩
    exact (hbelow k hk hkask).2

theorem permission_law (toolName input : Bytes) :
    (∀ rules capabilities mode, (evaluate rules toolName input capabilities mode).verdict =
      ((requirements capabilities).map fun c => ruling rules toolName input c mode).foldl
        Verdict.meet .allow) ∧
    (∀ rules rules' capabilities mode, rules.Perm rules' →
      (evaluate rules toolName input capabilities mode).verdict =
        (evaluate rules' toolName input capabilities mode).verdict) ∧
    (∀ rules capabilities capabilities' mode, (∀ c, c ∈ capabilities ↔ c ∈ capabilities') →
      (evaluate rules toolName input capabilities mode).Agrees
        (evaluate rules toolName input capabilities' mode)) ∧
    (∀ (before after : List Rule) (rule : Rule) capabilities mode, rule.verdict = .deny →
      (evaluate (before ++ rule :: after) toolName input capabilities mode).verdict.rank ≤
        (evaluate (before ++ after) toolName input capabilities mode).verdict.rank) ∧
    (∀ rules before after c mode, before ++ after ≠ [] →
      (evaluate rules toolName input (before ++ c :: after) mode).Within
        (evaluate rules toolName input (before ++ after) mode)) ∧
    (∀ rules capabilities mode, (evaluate rules toolName input capabilities mode).verdict = .ask →
      IsLeast { r | ∃ c ∈ requirements capabilities,
        (evaluateRequirement rules toolName input c mode).verdict = .ask ∧
        (evaluateRequirement rules toolName input c mode).replayMax = r }
        (evaluate rules toolName input capabilities mode).replayMax ∧
      IsLeast { t | ∃ c ∈ requirements capabilities,
        (evaluateRequirement rules toolName input c mode).verdict = .ask ∧
        (evaluateRequirement rules toolName input c mode).approvalTtl = t }
        (evaluate rules toolName input capabilities mode).approvalTtl) ∧
    (∀ a b c : Decision, (intersect a b).Agrees (intersect b a) ∧
      (intersect (intersect a b) c).Agrees (intersect a (intersect b c)) ∧
        (intersect a a).Agrees a) ∧
    ∀ (own : PolicyView) (ancestors : List PolicyView) capabilities, ∀ policy ∈ own :: ancestors,
      (intersectAll (evaluate own.rules toolName input capabilities own.mode)
        (ancestors.map fun p => evaluate p.rules toolName input capabilities p.mode)).Within
        (evaluate policy.rules toolName input capabilities policy.mode) := by
  refine ⟨fun rules => evaluate_verdict rules toolName input,
    fun rules rules' capabilities mode h => ?_, fun rules capabilities capabilities' mode h =>
    agrees_of_grade_eq (grade_evaluate_congr rules toolName input mode h),
    fun before after rule capabilities mode h => ?_, fun rules before after c mode h =>
    within_of_grade_le (grade_evaluate_insert rules toolName input mode c h),
    fun rules capabilities mode h => evaluate_ask_limits h, fun a b c => ⟨?_, ?_, ?_⟩,
    fun own ancestors capabilities policy hpolicy => ?_⟩
  · rw [evaluate_verdict, evaluate_verdict]
    simp only [ruling_perm h]
  · rw [evaluate_verdict, evaluate_verdict]
    exact rank_foldl_le (fun c => ruling_deny h toolName input c mode) (Nat.le_refl _)
  · refine agrees_of_grade_eq ?_
    rw [grade_intersect, grade_intersect, inf_comm]
  · refine agrees_of_grade_eq ?_
    rw [grade_intersect, grade_intersect, grade_intersect, grade_intersect, inf_assoc]
  · refine agrees_of_grade_eq ?_
    rw [grade_intersect, inf_idem]
  · refine within_of_grade_le ?_
    rw [grade_intersectAll]
    rcases List.mem_cons.mp hpolicy with rfl | hpolicy
    · exact inf_le_left
    · refine le_trans inf_le_right (le_meetAll.mp le_rfl _ ?_)
      rw [List.map_map]
      exact List.mem_map_of_mem (f :=
        fun p : PolicyView => (evaluate p.rules toolName input capabilities p.mode).grade)
        hpolicy

end

end Orangutan.Permission
