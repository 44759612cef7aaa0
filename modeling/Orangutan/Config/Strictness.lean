import Orangutan.Config.Strings

/-!
# Strict and lenient documents

Every section settles on the fields it reads, so the whole document does: strict reading is lenient
reading without warnings, and the warnings are the members that no section claims.
-/

namespace Orangutan.Config

set_option autoImplicit false

open Orangutan.Core Orangutan.Permission

variable {α β : Type} {table : Table} {view : View} {keys : List String} {key : String}
  {shape : Shape}

namespace Reads

protected theorem map {p : Read α} (hp : Reads table view keys p p) (f : α → β) :
    Reads table view keys (p >>= fun a => pure (f a)) (p >>= fun a => pure (f a)) := by
  have h := hp.bind fun a => Reads.pure (f a)
  rwa [List.append_nil] at h

/-- A value without objects, and what replaces the default. -/
protected theorem leaf {parse : Host → Value → Bytes → Result α} {f : Option α → β}
    (hkey : (key, Shape.leaf) ∈ table.entries) :
    Reads table view [key] (Fields.field key parse >>= fun parsed => pure (f parsed))
      (Fields.field key parse >>= fun parsed => pure (f parsed)) :=
  Reads.map (Reads.take hkey (Settles.plain parse)) f

protected theorem strings {out : List Bytes} {nonEmpty : Bool}
    (hkey : (key, Shape.list .leaf) ∈ table.entries) :
    Reads table view [key] (Fields.strings key out nonEmpty) (Fields.strings key out nonEmpty) :=
  Reads.map (Reads.take hkey (Settles.plain _).arrayOf) _

protected theorem requiredString {out : Bytes} {nonEmpty : Bool}
    (hkey : (key, Shape.leaf) ∈ table.entries) :
    Reads table view [key] (Fields.requiredString key out nonEmpty)
      (Fields.requiredString key out nonEmpty) :=
  Reads.bind (Reads.bind (Reads.contains hkey) fun _ => Reads.check _) fun _ => Reads.leaf hkey

protected theorem object {out : α} {parse : Read α} (hkey : (key, shape) ∈ table.entries)
    (hparse : Settles shape (nested parse)) :
    Reads table view [key] (Fields.object key out parse) (Fields.object key out parse) :=
  Reads.map (Reads.take hkey hparse) _

protected theorem entries {parse : Bytes → Read α} (hkey : (key, Shape.named shape) ∈ table.entries)
    (hparse : ∀ name, Settles shape (nested (parse name))) :
    Reads table view [key] (Fields.entries key parse) (Fields.entries key parse) :=
  Reads.map (Reads.take hkey (Settles.namedBy hparse)) _

end Reads

def toolOutputFields : Table where
  entries := [("max_text_bytes", .leaf), ("max_data_bytes", .leaf)]
  distinct := by decide +kernel

def toolSchedulerFields : Table where
  entries := [("max_parallel_tools", .leaf), ("per_call_timeout_ms", .leaf)]
  distinct := by decide +kernel

def promptFields : Table where
  entries := [("active_tools", .leaf)]
  distinct := by decide +kernel

def streamFields : Table where
  entries := [("max_bytes", .leaf)]
  distinct := by decide +kernel

def runtimeFields : Table where
  entries := [("workers", .leaf), ("request_timeout_ms", .leaf),
    ("tool_output", toolOutputFields.shape), ("tool_scheduler", toolSchedulerFields.shape),
    ("prompt", promptFields.shape), ("stream", streamFields.shape)]
  distinct := by decide +kernel

def traceFields : Table where
  entries := [("enabled", .leaf)]
  distinct := by decide +kernel

def hooksFields : Table where
  entries := [("timeout_ms", .leaf)]
  distinct := by decide +kernel

def recallFields : Table where
  entries := [("enabled", .leaf), ("limit", .leaf), ("kinds", .list .leaf)]
  distinct := by decide +kernel

def longtermFields : Table where
  entries := [("recall", recallFields.shape)]
  distinct := by decide +kernel

def memoryFields : Table where
  entries := [("longterm", longtermFields.shape)]
  distinct := by decide +kernel

def cacheFields : Table where
  entries := [("enabled", .leaf), ("min_prefix_bytes", .leaf)]
  distinct := by decide +kernel

def pricingFields : Table where
  entries := [("input_per_million_usd", .leaf), ("output_per_million_usd", .leaf),
    ("cache_creation_per_million_usd", .leaf), ("cache_read_per_million_usd", .leaf)]
  distinct := by decide +kernel

def profileFields : Table where
  entries := [("provider", .leaf), ("protocol", .leaf), ("model", .leaf), ("base_url", .leaf),
    ("api_key_env", .leaf), ("pricing", pricingFields.shape), ("thinking_budget", .leaf),
    ("cache", cacheFields.shape)]
  distinct := by decide +kernel

def routeFields : Table where
  entries := [("primary", .leaf), ("fallbacks", .list .leaf)]
  distinct := by decide +kernel

def ruleFields : Table where
  entries := [("tool_pattern", .leaf), ("capability", .leaf), ("input_pattern", .leaf),
    ("replay_max", .leaf), ("approval_ttl_seconds", .leaf)]
  distinct := by decide +kernel

def workspaceFields : Table where
  entries := [("extra_read_roots", .list .leaf), ("extra_write_roots", .list .leaf)]
  distinct := by decide +kernel

def permissionsFields : Table where
  entries := [("workspace", workspaceFields.shape), ("allow", .list ruleFields.shape),
    ("deny", .list ruleFields.shape), ("ask", .list ruleFields.shape)]
  distinct := by decide +kernel

def documentFields : Table where
  entries := [("strict_config", .leaf), ("runtime", runtimeFields.shape),
    ("profiles", .named profileFields.shape), ("routes", .named routeFields.shape),
    ("trace", traceFields.shape), ("hooks", hooksFields.shape), ("memory", memoryFields.shape),
    ("permissions", permissionsFields.shape)]
  distinct := by decide +kernel

theorem settles_toolOutput (out : ToolOutputRuntimeConfig) :
    Settles toolOutputFields.shape (nested (parseToolOutput out)) := by
  refine Settles.fields (fun view => ?_) rfl
  refine Reads.bind (Reads.leaf (by simp [toolOutputFields])) fun _ => ?_
  exact Reads.map (Reads.leaf (by simp [toolOutputFields])) _

theorem settles_toolScheduler (out : ToolSchedulerRuntimeConfig) :
    Settles toolSchedulerFields.shape (nested (parseToolScheduler out)) := by
  refine Settles.fields (fun view => ?_) rfl
  refine Reads.bind (Reads.leaf (by simp [toolSchedulerFields])) fun _ => ?_
  exact Reads.map (Reads.leaf (by simp [toolSchedulerFields])) _

theorem settles_prompt (out : PromptRuntimeConfig) :
    Settles promptFields.shape (nested (parsePrompt out)) := by
  refine Settles.fields (fun view => ?_) rfl
  exact Reads.leaf (by simp [promptFields])

theorem settles_stream (out : StreamRuntimeConfig) :
    Settles streamFields.shape (nested (parseStream out)) := by
  refine Settles.fields (fun view => ?_) rfl
  exact Reads.map (Reads.leaf (by simp [streamFields])) _

theorem settles_runtime (out : RuntimeConfig) :
    Settles runtimeFields.shape (nested (parseRuntime out)) := by
  refine Settles.fields (fun view => ?_) rfl
  refine Reads.bind (Reads.leaf (by simp [runtimeFields])) fun _ => ?_
  refine Reads.bind (Reads.leaf (by simp [runtimeFields])) fun _ => ?_
  refine Reads.bind (Reads.object (by simp [runtimeFields]) (settles_toolOutput _)) fun _ => ?_
  refine Reads.bind (Reads.object (by simp [runtimeFields]) (settles_toolScheduler _)) fun _ => ?_
  refine Reads.bind (Reads.object (by simp [runtimeFields]) (settles_prompt _)) fun _ => ?_
  exact Reads.map (Reads.object (by simp [runtimeFields]) (settles_stream _)) _

theorem settles_trace (out : TraceConfig) :
    Settles traceFields.shape (nested (parseTrace out)) := by
  refine Settles.fields (fun view => ?_) rfl
  exact Reads.map (Reads.leaf (by simp [traceFields])) _

theorem settles_hooks (out : HooksConfig) :
    Settles hooksFields.shape (nested (parseHooks out)) := by
  refine Settles.fields (fun view => ?_) rfl
  exact Reads.map (Reads.leaf (by simp [hooksFields])) _

/-- The list of kinds is read once, and looked for once more. -/
theorem settles_recall (out : LongtermMemoryRecallConfig) :
    Settles recallFields.shape (nested (parseRecall out)) := by
  refine Settles.fields (fun view => ?_) rfl
  refine Reads.bind (Reads.leaf (by simp [recallFields])) fun _ => ?_
  refine Reads.bind (Reads.leaf (by simp [recallFields])) fun _ => ?_
  refine Reads.bind (Reads.strings (by simp [recallFields])) fun _ => ?_
  have hkinds : ("kinds", Shape.list .leaf) ∈ recallFields.entries := by simp [recallFields]
  refine Reads.bind (Reads.contains hkinds) fun _ => ?_
  exact Reads.map (Reads.check _) _

theorem settles_longterm (out : LongtermMemoryConfig) :
    Settles longtermFields.shape (nested (parseLongterm out)) := by
  refine Settles.fields (fun view => ?_) rfl
  exact Reads.map (Reads.object (by simp [longtermFields]) (settles_recall _)) _

theorem settles_memory (out : MemoryConfig) :
    Settles memoryFields.shape (nested (parseMemory out)) := by
  refine Settles.fields (fun view => ?_) rfl
  exact Reads.map (Reads.object (by simp [memoryFields]) (settles_longterm _)) _

theorem settles_cache : Settles cacheFields.shape (nested parseCache) := by
  refine Settles.fields (fun view => ?_) rfl
  refine Reads.bind (Reads.leaf (by simp [cacheFields])) fun _ => ?_
  exact Reads.map (Reads.leaf (by simp [cacheFields])) _

theorem settles_pricing (out : ProviderPricingConfig) :
    Settles pricingFields.shape (nested (parsePricing out)) := by
  refine Settles.fields (fun view => ?_) rfl
  refine Reads.bind (Reads.leaf (by simp [pricingFields])) fun _ => ?_
  refine Reads.bind (Reads.leaf (by simp [pricingFields])) fun _ => ?_
  refine Reads.bind (Reads.leaf (by simp [pricingFields])) fun _ => ?_
  exact Reads.map (Reads.leaf (by simp [pricingFields])) _

theorem settles_profile (out : ProfileConfig) :
    Settles profileFields.shape (nested (parseProfile out)) := by
  refine Settles.fields (fun view => ?_) rfl
  refine Reads.bind (Reads.requiredString (by simp [profileFields])) fun _ => ?_
  refine Reads.bind (Reads.leaf (by simp [profileFields])) fun _ => ?_
  refine Reads.bind (Reads.requiredString (by simp [profileFields])) fun _ => ?_
  refine Reads.bind (Reads.requiredString (by simp [profileFields])) fun _ => ?_
  refine Reads.bind (Reads.requiredString (by simp [profileFields])) fun _ => ?_
  refine Reads.bind (Reads.object (by simp [profileFields]) (settles_pricing _)) fun _ => ?_
  refine Reads.bind (Reads.leaf (by simp [profileFields])) fun _ => ?_
  exact Reads.map (Reads.object (by simp [profileFields]) settles_cache) _

theorem settles_route (out : RouteConfig) :
    Settles routeFields.shape (nested (parseRoute out)) := by
  refine Settles.fields (fun view => ?_) rfl
  refine Reads.bind (Reads.requiredString (by simp [routeFields])) fun _ => ?_
  exact Reads.map (Reads.strings (by simp [routeFields])) _

theorem settles_rule (verdict : Verdict) : Settles ruleFields.shape fun host strict value path =>
    parseRule host strict verdict value path := by
  have hsame : (fun host strict value path => parseRule host strict verdict value path) =
      nested (parseRuleFields verdict) := by
    funext host strict value path
    exact parseRule_eq host strict verdict value path
  rw [hsame]
  refine Settles.fields (fun view => ?_) rfl
  refine Reads.bind (Reads.requiredString (by simp [ruleFields])) fun _ => ?_
  refine Reads.bind (Reads.take (by simp [ruleFields]) (Settles.plain _)) fun _ => ?_
  refine Reads.bind (Reads.take (by simp [ruleFields]) (Settles.plain _)) fun _ => ?_
  refine Reads.bind (Reads.take (by simp [ruleFields]) (Settles.plain _)) fun _ => ?_
  exact Reads.map (Reads.take (by simp [ruleFields]) (Settles.plain _)) _

theorem settles_workspace (out : WorkspacePermissionsConfig) :
    Settles workspaceFields.shape (nested (parseWorkspace out)) := by
  refine Settles.fields (fun view => ?_) rfl
  refine Reads.bind (Reads.strings (by simp [workspaceFields])) fun _ => ?_
  exact Reads.map (Reads.strings (by simp [workspaceFields])) _

def verdictKeys (members : List Member) : List String := members.filterMap fun member =>
    (parseVerdict member.1).map verdictKey

theorem text_verdictKey {name : Bytes} {verdict : Verdict} (h : parseVerdict name = some verdict) :
    text (verdictKey verdict) = name := by
  simpa using List.find?_some h

theorem mem_permissionsFields (verdict : Verdict) :
    (verdictKey verdict, Shape.list ruleFields.shape) ∈ permissionsFields.entries := by
  cases verdict <;> simp [permissionsFields, verdictKey]

/-- The loop takes the verdict keys one after the other, and skips what is no verdict on both sides.
-/
theorem reads_parseVerdicts (view : View) (members : List Member) :
    Reads permissionsFields view (verdictKeys members) (parseVerdicts members)
      (parseVerdicts (permissionsFields.prune members)) := by
  induction members with
  | nil => exact Reads.pure []
  | cons member rest ih =>
    rcases hverdict : parseVerdict member.1 with _ | verdict
    · have hkeys : verdictKeys (member :: rest) = verdictKeys rest := by
        rw [verdictKeys, List.filterMap_cons, hverdict]
        rfl
      have hskip : ∀ (value : Value) (rest : List Member),
          parseVerdicts ((member.1, value) :: rest) = parseVerdicts rest := by
        intro value rest
        rw [parseVerdicts, hverdict]
      rw [hkeys, hskip member.2]
      rw [Table.prune, List.filter_cons]
      split
      · rw [List.map_cons, hskip]
        exact ih
      · exact ih
    · have hname := text_verdictKey hverdict
      have hkeys : verdictKeys (member :: rest) = [verdictKey verdict] ++ verdictKeys rest := by
        rw [verdictKeys, List.filterMap_cons, hverdict]
        rfl
      have hclaims : permissionsFields.claims member.1 = true := by
        rw [← hname]
        exact Table.claims_of_mem (mem_permissionsFields verdict)
      have hloop : ∀ (value : Value) (rest : List Member),
          parseVerdicts ((member.1, value) :: rest) = (do
          let rules ← Fields.take (verdictKey verdict)
            (arrayOf fun host strict value path => parseRule host strict verdict value path)
          let more ← parseVerdicts rest
          return rules.getD [] ++ more) := by
        intro value rest
        rw [parseVerdicts, hverdict]
      rw [hkeys, hloop member.2, Table.prune, List.filter_cons, if_pos hclaims,
        List.map_cons, hloop]
      refine Reads.bind (Reads.take (mem_permissionsFields verdict) (settles_rule verdict).arrayOf)
        fun rules => ?_
      have hmore := Reads.bind ih fun more => Reads.pure (rules.getD [] ++ more)
      rwa [List.append_nil] at hmore

theorem reads_parseRules (view : View) :
    Reads permissionsFields view (verdictKeys view.members) parseRules parseRules :=
  have h := reads_parseVerdicts view view.members
  ⟨h.strict, h.known, h.warned, h.same⟩

theorem any_verdictKeys {members : List Member} {member : Member} (hmember : member ∈ members) :
    ((verdictKeys members).any fun key => text key == member.1) =
      (parseVerdict member.1).isSome := by
  rw [Bool.eq_iff_iff, List.any_eq_true]
  constructor
  · rintro ⟨key, hkey, heq⟩
    obtain ⟨other, hother, hfound⟩ := List.mem_filterMap.mp hkey
    obtain ⟨verdict, hverdict, rfl⟩ := Option.map_eq_some_iff.mp hfound
    rw [← eq_of_beq heq, text_verdictKey hverdict, hverdict]
    rfl
  · intro hsome
    obtain ⟨verdict, hverdict⟩ := Option.isSome_iff_exists.mp hsome
    exact ⟨verdictKey verdict, List.mem_filterMap.mpr ⟨member, hmember, by rw [hverdict]; rfl⟩,
      by rw [text_verdictKey hverdict]; exact beq_self_eq_true _⟩

theorem map_verdictKeys (members : List Member) :
    ((verdictKeys members).map text).Sublist (members.map Prod.fst) := by
  induction members with
  | nil => exact List.Sublist.refl _
  | cons member rest ih =>
    rw [verdictKeys, List.filterMap_cons, List.map_cons]
    rcases hverdict : parseVerdict member.1 with _ | verdict
    · exact ih.cons _
    · rw [Option.map_some, List.map_cons, text_verdictKey hverdict]
      exact ih.cons_cons _

theorem settles_permissions (out : PermissionsConfig) :
    Settles permissionsFields.shape (nested (parsePermissions out)) := by
  refine Settles.nested (fun members => "workspace" :: verdictKeys members) (fun view => ?_)
    (fun members hmembers => ?_)
    fun members member hmember => ?_
  · refine Reads.bind (Reads.object (by simp [permissionsFields]) (settles_workspace _)) fun _ => ?_
    exact Reads.map (reads_parseRules view) _
  · rw [List.map_cons, List.nodup_cons]
    refine ⟨fun hmem => ?_, (map_verdictKeys members).nodup hmembers⟩
    obtain ⟨key, hkey, heq⟩ := List.mem_map.mp hmem
    obtain ⟨other, -, hfound⟩ := List.mem_filterMap.mp hkey
    obtain ⟨verdict, -, rfl⟩ := Option.map_eq_some_iff.mp hfound
    revert heq
    cases verdict <;> decide +kernel
  · rw [List.any_cons, any_verdictKeys hmember, parseVerdict, List.isSome_find?]
    simp [Table.claims, permissionsFields, verdictKey]

/-- The reads of the root, under one strictness. -/
def parseDocument : Read Config := do
  let strictConfig ← Fields.boolean "strict_config" false
  parseSections { strictConfig }

theorem settles_document : Settles documentFields.shape (nested parseDocument) := by
  refine Settles.fields (fun view => ?_) rfl
  refine Reads.bind (Reads.leaf (by simp [documentFields])) fun _ => ?_
  refine Reads.bind (Reads.object (by simp [documentFields]) (settles_runtime _)) fun _ => ?_
  refine Reads.bind (Reads.entries (by simp [documentFields]) fun _ => settles_profile _)
    fun _ => ?_
  refine Reads.bind (Reads.entries (by simp [documentFields]) fun _ => settles_route _) fun _ => ?_
  refine Reads.bind (Reads.object (by simp [documentFields]) (settles_trace _)) fun _ => ?_
  refine Reads.bind (Reads.object (by simp [documentFields]) (settles_hooks _)) fun _ => ?_
  refine Reads.bind (Reads.object (by simp [documentFields]) (settles_memory _)) fun _ => ?_
  exact Reads.map (Reads.object (by simp [documentFields]) (settles_permissions _)) _

/-- `strict_config` as the document spells it. -/
def flagged (members : List Member) : Bool :=
  match members.find? (·.1 == text "strict_config") with
  | some (_, .boolean b) => b
  | _ => false

def unknownField (path : Bytes) : ConfigWarning := ⟨path, text "unknown config field"⟩

theorem boolean_eq (key : String) (out strict : Bool) (view : View) :
    Fields.boolean key out strict view =
      (field view.members view.path key Fields.booleanValue).map fun parsed =>
        { value := parsed.getD out, known := [key] } := by
  unfold Fields.boolean
  rw [bind_apply, Read.bind, field_eq]
  rcases field view.members view.path key Fields.booleanValue with e | parsed
  · rfl
  · rfl

theorem flagged_of_field {members : List Member} {path : Bytes} {parsed : Option Bool}
    (h : field members path "strict_config" Fields.booleanValue = .ok parsed) : parsed.getD false =
      flagged members := by
  unfold field at h
  unfold flagged
  rcases hfind : members.find? (·.1 == text "strict_config") with _ | ⟨name, value⟩
  · rw [hfind] at h
    cases h
    rw [hfind]
    rfl
  · rw [hfind] at h
    rw [hfind]
    cases value with
    | boolean b =>
      cases h
      rfl
    | _ => cases h

/-- The root is read as a section, strict when the caller or the document says so. -/
theorem ofRoot_eq (host : Host) (options : LoadOptions) (members : List Member) :
    Config.ofRoot host options (.object members) =
      (nested parseDocument host (options.strictUnknownFields || flagged members) (.object members)
        (text "$")).map
        fun read => { read.1 with warnings := read.2.map unknownField } := by
  unfold Config.ofRoot nested parseDocument
  simp only [bind_apply, Read.bind, boolean_eq]
  rcases hfield : field members (text "$") "strict_config" Fields.booleanValue with e | parsed
  · rfl
  · rw [← flagged_of_field hfield]
    dsimp only [Except.map]
    change (parseSections { strictConfig := parsed.getD false }
      (options.strictUnknownFields || parsed.getD false)
      ⟨host, text "$", members⟩ >>= _) = _
    rcases parseSections { strictConfig := parsed.getD false }
      (options.strictUnknownFields || parsed.getD false)
      ⟨host, text "$", members⟩ with e | sections
    · rfl
    · change (finish members (text "$") (["strict_config"] ++ sections.known) _ >>= _) = _
      dsimp only
      rcases finish members (text "$") (["strict_config"] ++ sections.known)
        (options.strictUnknownFields || parsed.getD false) with e | unknown
      · rfl
      · rfl

theorem flagged_prune (members : List Member) :
    flagged (documentFields.prune members) = flagged members := by
  have hkey : ("strict_config", Shape.leaf) ∈ documentFields.entries := by simp [documentFields]
  unfold flagged
  rw [Table.find_prune (Table.claims_of_mem hkey)]
  rcases hfind : members.find? (·.1 == text "strict_config") with _ | ⟨name, value⟩
  · rw [hfind]
    rfl
  · have hname : name = text "strict_config" := by simpa using List.find?_some hfind
    have hleaf : (documentFields.part name).prune value = value := by
      rw [hname, Table.part_of_mem hkey]
      cases value <;> rfl
    rw [hfind, Option.map_some, hleaf]

theorem map_ok {a : Result α} {f : α → β} {b : β} : a.map f = .ok b ↔ ∃ x, a = .ok x ∧ f x = b := by
  rcases a with e | x
  · simp [Except.map]
  · simp [Except.map]

theorem ofRoot_ok {host : Host} {options : LoadOptions} {members : List Member} {config : Config} :
    Config.ofRoot host options (.object members) = .ok config ↔ ∃ read,
      nested parseDocument host (options.strictUnknownFields || flagged members) (.object members)
        (text "$") = .ok read ∧
        { read.1 with warnings := read.2.map unknownField } = config := by
  rw [ofRoot_eq, map_ok]

/-- A document read leniently is read the same when only the document asks for strictness. -/
theorem lenient_of_flagged {host : Host} {members : List Member} {read : Config × List Bytes}
    (h : nested parseDocument host (false || flagged members) (.object members) (text "$") =
      .ok read) :
    nested parseDocument host false (.object members) (text "$") = .ok read ∧
      (flagged members = true → read.2 = []) := by
  rcases hflag : flagged members with _ | _
  · rw [hflag] at h
    exact ⟨h, fun hflag => by cases hflag⟩
  · rw [hflag] at h
    obtain ⟨h, hnone⟩ := settles_document.strict.mp h
    exact ⟨h, fun _ => hnone⟩

theorem ofRoot_strict {host : Host} {root : Value} {config : Config} :
    Config.ofRoot host { strictUnknownFields := true } root = .ok config ↔
      Config.ofRoot host {} root = .ok config ∧ config.warnings = [] := by
  cases root with
  | object members =>
    rw [ofRoot_ok, ofRoot_ok]
    constructor
    · rintro ⟨read, hread, rfl⟩
      obtain ⟨hlenient, hnone⟩ := settles_document.strict.mp hread
      refine ⟨⟨read, ?_, rfl⟩, by rw [hnone]; rfl⟩
      rcases hflag : flagged members with _ | _
      · exact hlenient
      · exact hread
    · rintro ⟨⟨read, hread, rfl⟩, hnone⟩
      obtain ⟨hlenient, -⟩ := lenient_of_flagged hread
      exact ⟨read, settles_document.strict.mpr ⟨hlenient, List.map_eq_nil_iff.mp hnone⟩, rfl⟩
  | _ => exact iff_of_false (fun h => by cases h) fun h => by cases h.1

def documentShape : Shape := documentFields.shape

theorem ofRoot_lenient {host : Host} {root : Value} (hdistinct : root.Distinct) {config : Config}
    (h : Config.ofRoot host {} root = .ok config) :
    config.warnings.Perm ((documentShape.unclaimed root (text "$")).map unknownField) ∧
      Config.ofRoot host {} (documentShape.prune root) = .ok { config with warnings := [] } := by
  cases root with
  | object members =>
    obtain ⟨read, hread, rfl⟩ := ofRoot_ok.mp h
    obtain ⟨hlenient, hflagged⟩ := lenient_of_flagged hread
    refine ⟨(settles_document.warned hdistinct hlenient).map _, ?_⟩
    have hpruned := settles_document.pruned hlenient
    refine ofRoot_ok.mpr ⟨(read.1, []), ?_, rfl⟩
    have hsame : flagged (documentFields.prune members) = flagged members := flagged_prune members
    change nested parseDocument host (false || flagged (documentFields.prune members)) _ _ = _
    rw [hsame]
    rcases hflag : flagged members with _ | _
    · exact hpruned
    · exact settles_document.strict.mpr ⟨hpruned, rfl⟩
  | _ => cases h

theorem Shape.distinct_prune (shape : Shape) {value : Value} (h : value.Distinct) :
    (shape.prune value).Distinct := by
  induction shape generalizing value with
  | leaf => cases h <;> constructor <;> assumption
  | object claims part ih =>
    cases h with
    | @object members hkeys hmembers =>
      refine .object ?_ fun member hmember => ?_
      · rw [List.map_map]
        exact hkeys.sublist (List.filter_sublist.map _)
      · obtain ⟨source, hsource, rfl⟩ := List.mem_map.mp hmember
        exact ih source.1 (hmembers source (List.mem_filter.mp hsource).1)
    | _ => constructor <;> assumption
  | named part ih =>
    cases h with
    | @object members hkeys hmembers =>
      refine .object ?_ fun member hmember => ?_
      · rw [List.map_map]
        exact hkeys
      · obtain ⟨source, hsource, rfl⟩ := List.mem_map.mp hmember
        exact ih (hmembers source hsource)
    | _ => constructor <;> assumption
  | list part ih =>
    cases h with
    | @array items hitems =>
      refine .array fun item hitem => ?_
      obtain ⟨source, hsource, rfl⟩ := List.mem_map.mp hitem
      exact ih (hitems source hsource)
    | _ => constructor <;> assumption

/-- The document without the members that no section claims. -/
def Document.pruned (document : Document) : Document :=
  ⟨documentShape.prune document.root, documentShape.distinct_prune document.distinct⟩

theorem parse_ok {host : Host} {parser : Bytes → Except JsonException Document} {contents : Bytes}
    {options : LoadOptions} {config : Config} :
    Config.parse host parser contents options = .ok config ↔
      ∃ document, parser contents = .ok document ∧
        Config.ofRoot host options document.root = .ok config := by
  unfold Config.parse
  rcases parser contents with (what | what) | document
  · simp
  · simp
  · simp

/-- Strict configuration is lenient configuration without warnings. -/
theorem strict_configuration (host : Host) (parser : Bytes → Except JsonException Document)
    (contents : Bytes) :
    (∀ config, Config.parse host parser contents { strictUnknownFields := true } = .ok config ↔
      Config.parse host parser contents {} = .ok config ∧ config.warnings = []) ∧
    (∀ document config, parser contents = .ok document →
      Config.parse host parser contents {} = .ok config →
      config.warnings.Perm ((documentShape.unclaimed document.root (text "$")).map unknownField) ∧
        Config.ofRoot host {} document.pruned.root = .ok { config with warnings := [] }) ∧
    (∀ options document config, parser contents = .ok document →
      Config.parse host parser contents options = .ok config →
        Within (DocumentStrings host) document.root config) ∧
    (∀ nonEmpty value path output, stringValue host nonEmpty value path = .ok output ↔
      ExpandsTo host value output ∧ (nonEmpty = true → output ≠ [])) ∧
    (∀ input path output, expandEnvString host input path = .ok output ↔
      Expands host input output) ∧
    (∀ input path, ¬ text "$\x7b" <:+: input → expandEnvString host input path = .ok input) := by
  refine ⟨fun config => ?_, fun document config hdocument h => ?_,
    fun options document config hdocument h => ?_, fun nonEmpty value path output => stringValue_ok,
    fun input path output => expandEnvString_ok, ?_⟩
  · rw [parse_ok, parse_ok]
    constructor
    · rintro ⟨document, hdocument, hroot⟩
      obtain ⟨hroot, hnone⟩ := ofRoot_strict.mp hroot
      exact ⟨⟨document, hdocument, hroot⟩, hnone⟩
    · rintro ⟨⟨document, hdocument, hroot⟩, hnone⟩
      exact ⟨document, hdocument, ofRoot_strict.mpr ⟨hroot, hnone⟩⟩
  · obtain ⟨found, hfound, hroot⟩ := parse_ok.mp h
    obtain rfl := Except.ok.inj (hdocument.symm.trans hfound)
    exact ofRoot_lenient document.distinct hroot
  · obtain ⟨found, hfound, hroot⟩ := parse_ok.mp h
    obtain rfl := Except.ok.inj (hdocument.symm.trans hfound)
    exact ofRoot_strings hroot
  · intro input path hnone
    exact expandEnvString_ok.mpr (.unchanged hnone)

/-- A provider that names a variable with a default, and a list of rules under a misspelled verdict.
-/
def misspelledDocument : Document where
  root := .object [
    (text "profiles", .object [(text "main", .object [
      (text "provider", .string (text "$\x7bORAN_PROVIDER:-openai\x7d")),
        (text "model", .string (text "m")),
      (text "base_url", .string []), (text "api_key_env", .string (text "KEY"))])]),
    (text "permissions", .object [(text "alow", .array []), (text "deny", .array [])])]
  distinct := by
    refine .object (by decide +kernel)
      (List.forall_mem_cons.mpr ⟨?_, List.forall_mem_singleton.mpr ?_⟩)
    · refine .object (by simp) (List.forall_mem_singleton.mpr (.object (by decide +kernel) ?_))
      simp only [List.forall_mem_cons]
      exact ⟨.string _, .string _, .string _, .string _, fun _ h => absurd h List.not_mem_nil⟩
    · refine .object (by decide +kernel)
        (List.forall_mem_cons.mpr ⟨.array ?_, List.forall_mem_singleton.mpr (.array ?_)⟩)
      · exact fun _ h => absurd h List.not_mem_nil
      · exact fun _ h => absurd h List.not_mem_nil

/-- The document is accepted with one warning and its provider expanded; strictly it is refused. -/
theorem strict_configuration_misspelled : ∃ host config,
    Config.parse host (fun _ => .ok misspelledDocument) [] {} = .ok config ∧
      config.warnings = [unknownField (text "$.permissions.alow")] ∧
      config.profiles.map (·.provider) = [text "openai"] ∧
      ∀ strict, Config.parse host (fun _ => .ok misspelledDocument) [] { strictUnknownFields :=
        true } ≠ .ok strict := by
  have hread :
    ((Config.parse ⟨fun _ => none, fun _ => none⟩ (fun _ => .ok misspelledDocument) []
    {}).toOption.map
      fun config => (config.warnings, config.profiles.map (·.provider))) =
        some ([unknownField (text "$.permissions.alow")], [text "openai"]) := by decide +kernel
  rcases hparse : Config.parse ⟨fun _ => none, fun _ => none⟩ (fun _ => .ok misspelledDocument) []
    {} with e | config
  · rw [hparse] at hread
    cases hread
  · rw [hparse] at hread
    obtain ⟨hwarnings, hprovider⟩ := Prod.mk.inj (Option.some.inj hread)
    refine ⟨_, config, hparse, hwarnings, hprovider, fun strict hstrict => ?_⟩
    obtain ⟨hlenient, hnone⟩ := ((strict_configuration _ _ _).1 strict).mp hstrict
    obtain rfl := Except.ok.inj (hparse.symm.trans hlenient)
    rw [hwarnings] at hnone
    cases hnone

end Orangutan.Config
