import Orangutan.Config.Expansion
import Orangutan.Config.Shapes

/-!
# The strings of a configuration

A string of a configuration is the string that the document has in its place, expanded once, or the
default where the document has none. The relations below follow the sections of the document.
-/

namespace Orangutan.Config

set_option autoImplicit false

open Orangutan.Core Orangutan.Permission

variable {α β : Type} {host : Host} {strict : Bool} {view : View} {key : String}

def ExpandsTo (host : Host) (value : Value) (out : Bytes) : Prop :=
  ∃ s, value = .string s ∧ Expands host s out

/-- One string for each item of an array. -/
def EachExpandsTo (host : Host) (value : Value) (out : List Bytes) : Prop :=
  ∃ items, value = .array items ∧ List.Forall₂ (ExpandsTo host) items out

/-- A field has what its member reads as, and the default without a member. -/
def Holds (members : List Member) (key : String) (reads : Value → α → Prop)
    (default out : α) : Prop :=
  match members.find? (·.1 == text key) with
  | none => out = default
  | some member => reads member.2 out

def Present (reads : Value → α → Prop) (value : Value) (out : Option α) : Prop :=
    ∃ a, out = some a ∧ reads value a

/-- The members of an object read as `out`. -/
def Within (reads : List Member → α → Prop) (value : Value) (out : α) : Prop :=
  ∃ members, value = .object members ∧ reads members out

structure ProfileStrings (host : Host) (name : Bytes) (members : List Member)
    (profile : ProfileConfig) : Prop where
  name : profile.name = name
  provider : Holds members "provider" (ExpandsTo host) [] profile.provider
  protocol : Holds members "protocol" (Present (ExpandsTo host)) none profile.protocol
  model : Holds members "model" (ExpandsTo host) [] profile.model
  baseUrl : Holds members "base_url" (ExpandsTo host) [] profile.baseUrl
  apiKeyEnv : Holds members "api_key_env" (ExpandsTo host) [] profile.apiKeyEnv

structure RouteStrings (host : Host) (name : Bytes) (members : List Member) (route : RouteConfig) :
    Prop where
  name : route.name = name
  primary : Holds members "primary" (ExpandsTo host) [] route.primaryProfile
  fallbacks : Holds members "fallbacks" (EachExpandsTo host) [] route.fallbackProfiles

structure RuleStrings (host : Host) (verdict : Verdict) (members : List Member)
    (rule : PermissionRuleConfig) :
    Prop where
  verdict : rule.verdict = verdict
  toolPattern : Holds members "tool_pattern" (ExpandsTo host) [] rule.toolPattern
  inputPattern : Holds members "input_pattern" (Present (ExpandsTo host)) none rule.inputPattern

structure WorkspaceStrings (host : Host) (members : List Member)
    (workspace : WorkspacePermissionsConfig) : Prop where
  readRoots : Holds members "extra_read_roots" (EachExpandsTo host) [] workspace.extraReadRoots
  writeRoots : Holds members "extra_write_roots" (EachExpandsTo host) [] workspace.extraWriteRoots

def KindStrings (host : Host) (members : List Member) (out : LongtermMemoryRecallConfig) : Prop :=
  Holds members "kinds" (EachExpandsTo host) [] out.kinds

/-- The rules of one member: none unless it is named by a verdict. -/
def MemberRules (host : Host) (members : List Member) (member : Member)
    (rules : List PermissionRuleConfig) : Prop :=
  match parseVerdict member.1 with
  | none => rules = []
  | some verdict => Holds members (verdictKey verdict) (fun value out => ∃ items,
      value = .array items ∧
      List.Forall₂ (Within (RuleStrings host verdict)) items out) [] rules

structure PermissionStrings (host : Host) (members : List Member)
    (permissions : PermissionsConfig) : Prop where
  workspace : Holds members "workspace" (Within (WorkspaceStrings host)) {} permissions.workspace
  rules : ∃ parts : List (List PermissionRuleConfig), permissions.rules = parts.flatten ∧
    List.Forall₂ (MemberRules host members) members parts

def MemoryStrings (host : Host) (members : List Member) (memory : MemoryConfig) : Prop :=
  Holds members "longterm" (Within fun members longterm =>
    Holds members "recall" (Within (KindStrings host)) {} longterm.recallConfig) {} memory.longterm

/-- Every string of the document that a field reads, in the order of the sections. -/
structure DocumentStrings (host : Host) (members : List Member) (config : Config) : Prop where
  profiles : Holds members "profiles" (Within fun entries out =>
    List.Forall₂ (fun entry => Within (ProfileStrings host entry.1) entry.2) entries out)
      [] config.profiles
  routes : Holds members "routes" (Within fun entries out =>
    List.Forall₂ (fun entry => Within (RouteStrings host entry.1) entry.2) entries out)
      [] config.routes
  memory : Holds members "memory" (Within (MemoryStrings host)) {} config.memory
  permissions : Holds members "permissions" (Within (PermissionStrings host)) {} config.permissions

theorem expandsTo_string {s out : Bytes} : ExpandsTo host (.string s) out ↔ Expands host s out := by
  constructor
  · rintro ⟨s', heq, h⟩
    cases heq
    exact h
  · exact fun h => ⟨s, rfl, h⟩

theorem stringValue_ok {nonEmpty : Bool} {value : Value} {path out : Bytes} :
    stringValue host nonEmpty value path = .ok out ↔
      ExpandsTo host value out ∧ (nonEmpty = true → out ≠ []) := by
  cases value with
  | string s =>
    have hexpands : expandEnvString host s path = .ok out ↔ Expands host s out := expandEnvString_ok
    rw [expandsTo_string, ← hexpands, stringValue]
    rcases expandEnvString host s path with e | expanded
    · simp
    · dsimp only
      rcases expanded with _ | ⟨c, expanded⟩
      · cases nonEmpty
        · simp
        · simp [eq_comm]
      · simp only [List.isEmpty_cons, Bool.and_false, Bool.false_eq_true, if_false, Except.ok.injEq]
        refine ⟨fun h => ⟨h, fun _ => ?_⟩, And.left⟩
        rw [← h]
        exact List.cons_ne_nil c expanded
  | _ =>
      refine iff_of_false (fun h => by cases h) fun h => ?_
      obtain ⟨⟨s, heq, -⟩, -⟩ := h
      cases heq

/-- A read that succeeds with a value. -/
def Yields (read : Read α) (strict : Bool) (view : View) (a : α) : Prop :=
  ∃ reading, read strict view = .ok reading ∧ reading.value = a

theorem yields_bind {p : Read α} {f : α → Read β} {b : β} :
    Yields (p >>= f) strict view b ↔ ∃ a, Yields p strict view a ∧ Yields (f a) strict view b := by
  constructor
  · rintro ⟨reading, h, rfl⟩
    obtain ⟨first, second, hfirst, hsecond, rfl⟩ := Reads.bind_ok.mp h
    exact ⟨first.value, ⟨first, hfirst, rfl⟩, second, hsecond, rfl⟩
  · rintro ⟨-, ⟨first, hfirst, rfl⟩, second, hsecond, rfl⟩
    exact ⟨_, Reads.bind_ok.mpr ⟨first, second, hfirst, hsecond, rfl⟩, rfl⟩

theorem yields_pure {a b : α} : Yields (pure a) strict view b ↔ a = b := by
  constructor
  · rintro ⟨reading, h, rfl⟩
    cases h
    rfl
  · rintro rfl
    exact ⟨_, rfl, rfl⟩

/-- What a parser reads of a value, whatever the path. -/
def Tells (parse : Parser α) (host : Host) (strict : Bool) (reads : Value → α → Prop) : Prop :=
  ∀ value path found, parse host strict value path = .ok found → reads value found.1

theorem holds_take {parse : Parser α} {reads : Value → α → Prop}
    (hparse : Tells parse view.host strict reads) {parsed : Option α}
    (h : Yields (Fields.take key parse) strict view parsed) :
    Holds view.members key (Present reads) none parsed := by
  obtain ⟨reading, h, rfl⟩ := h
  unfold Fields.take at h
  unfold Holds
  rcases hfind : view.members.find? (·.1 == text key) with _ | member
  · rw [hfind] at h ⊢
    cases h
    rfl
  · rw [hfind] at h ⊢
    dsimp only at h ⊢
    rcases hfound : parse view.host strict member.2 (childPath view.path (text key)) with e | found
    · rw [hfound] at h
      cases h
    · rw [hfound] at h
      cases h
      exact ⟨found.1, rfl, hparse _ _ _ hfound⟩

theorem Holds.getD {members : List Member} {reads : Value → α → Prop} {parsed : Option α}
    (h : Holds members key (Present reads) none parsed) (default : α) :
    Holds members key reads default (parsed.getD default) := by
  unfold Holds at h ⊢
  rcases hfind : members.find? (·.1 == text key) with _ | member
  · rw [hfind] at h ⊢
    rw [h]
    rfl
  · rw [hfind] at h ⊢
    obtain ⟨a, rfl, ha⟩ := h
    exact ha

theorem tells_plain {parse : Host → Value → Bytes → Result α} {reads : Value → α → Prop}
    (hparse : ∀ value path a, parse host value path = .ok a → reads value a) :
    Tells (plain parse) host strict reads := by
  intro value path found h
  obtain ⟨a, ha, rfl⟩ := Settles.plain_ok.mp h
  exact hparse value path a ha

theorem tells_nested {parse : Read α} {reads : List Member → α → Prop}
    (hparse : ∀ path members a, Yields parse strict ⟨host, path, members⟩ a → reads members a) :
    Tells (nested parse) host strict (Within reads) := by
  intro value path found h
  cases value with
  | object members =>
    unfold nested at h
    dsimp only at h
    rcases hreading : parse strict ⟨host, path, members⟩ with e | reading
    · rw [hreading] at h
      cases h
    · rw [hreading] at h
      dsimp only at h
      rcases hfinish : finish members path reading.known strict with e | unknown
      · rw [hfinish] at h
        cases h
      · rw [hfinish] at h
        cases h
        exact ⟨members, rfl, hparse path members _ ⟨reading, hreading, rfl⟩⟩
  | _ => cases h

theorem each_tells {ι : Type} {parse : ι → Parser α} {reads : ι → Value → α → Prop}
    (hparse : ∀ i, Tells (parse i) host strict (reads i)) {entries : List (ι × Bytes × Value)}
    {found : List α × List Bytes} (h : each parse host strict entries = .ok found) :
    List.Forall₂ (fun entry a => reads entry.1 entry.2.2 a) entries found.1 := by
  induction entries generalizing found with
  | nil =>
    cases h
    exact .nil
  | cons entry rest ih =>
    obtain ⟨i, path, value⟩ := entry
    obtain ⟨first, more, hfirst, hmore, rfl⟩ := Settles.each_cons_ok.mp h
    exact .cons (hparse i value path first hfirst) (ih hmore)

theorem tells_arrayOf {parse : Parser α} {reads : Value → α → Prop}
    (hparse : Tells parse host strict reads) :
    Tells (arrayOf parse) host strict fun value out => ∃ items, value = .array items ∧
      List.Forall₂ reads items out := by
  intro value path found h
  cases value with
  | array items =>
    refine ⟨items, rfl, ?_⟩
    have hall : List.Forall₂ (fun entry => reads entry.2.2) (elements path items) found.1 :=
      each_tells (fun _ => hparse) h
    rw [elements, List.forall₂_map_left_iff] at hall
    rw [← List.zipIdx_map_fst 0 items, List.forall₂_map_left_iff]
    exact hall
  | _ => cases h

theorem tells_namedBy {parse : Bytes → Parser α} {reads : Bytes → Value → α → Prop}
    (hparse : ∀ name, Tells (parse name) host strict (reads name)) :
    Tells (namedBy parse) host strict (Within fun entries out => List.Forall₂
      (fun entry => reads entry.1 entry.2) entries out) := by
  intro value path found h
  cases value with
  | object members =>
    refine ⟨members, rfl, ?_⟩
    have hall := each_tells hparse h
    rwa [entriesOf, List.forall₂_map_left_iff] at hall
  | _ => cases h

theorem tells_string {nonEmpty : Bool} :
    Tells (plain fun host => stringValue host nonEmpty) host strict (ExpandsTo host) :=
  tells_plain fun _ _ _ h => (stringValue_ok.mp h).1

/-- The reads of strings, of an object and of named objects all end in the default. -/
theorem holds_getD {parse : Parser α} {reads : Value → α → Prop}
    (hparse : Tells parse view.host strict reads) {default a : α}
    (h : Yields (Fields.take key parse >>= fun parsed => pure (parsed.getD default))
    strict view a) :
    Holds view.members key reads default a := by
  obtain ⟨parsed, hparsed, h⟩ := yields_bind.mp h
  obtain rfl := yields_pure.mp h
  exact (holds_take hparse hparsed).getD default

theorem string_holds {out a : Bytes} {nonEmpty : Bool}
    (h : Yields (Fields.string key out nonEmpty) strict view a) :
    Holds view.members key (ExpandsTo view.host) out a := holds_getD tells_string h

theorem requiredString_holds {out a : Bytes} {nonEmpty : Bool}
    (h : Yields (Fields.requiredString key out nonEmpty) strict view a) :
    Holds view.members key (ExpandsTo view.host) out a := by
  obtain ⟨-, -, h⟩ := yields_bind.mp h
  exact string_holds h

theorem strings_hold {out a : List Bytes} {nonEmpty : Bool}
    (h : Yields (Fields.strings key out nonEmpty) strict view a) :
    Holds view.members key (EachExpandsTo view.host) out a :=
      holds_getD (tells_arrayOf tells_string) h

theorem object_holds {parse : Read α} {reads : List Member → α → Prop} {out a : α}
    (hparse : ∀ path members a, Yields parse strict ⟨view.host, path, members⟩ a → reads members a)
    (h : Yields (Fields.object key out parse) strict view a) :
      Holds view.members key (Within reads) out a :=
  holds_getD (tells_nested hparse) h

theorem entries_hold {parse : Bytes → Read α} {reads : Bytes → List Member → α → Prop} {a : List α}
    (hparse : ∀ name path members a, Yields (parse name) strict ⟨view.host, path, members⟩ a →
      reads name members a)
    (h : Yields (Fields.entries key parse) strict view a) :
    Holds view.members key (Within fun entries out => List.Forall₂
      (fun entry => Within (reads entry.1) entry.2) entries out)
      [] a := holds_getD (tells_namedBy fun name => tells_nested (hparse name)) h

theorem patternValue_expands {value : Value} {path a : Bytes}
    (h : patternValue host value path = .ok a) :
    ExpandsTo host value a := by
  unfold patternValue at h
  rcases hstring : stringValue host true value path with e | pattern
  · rw [hstring] at h
    cases h
  · rw [hstring] at h
    dsimp only at h
    rcases hregex : host.regexError pattern with _ | detail
    · rw [hregex] at h
      cases h
      exact (stringValue_ok.mp hstring).1
    · rw [hregex] at h
      cases h

theorem parseProfile_strings {name path : Bytes} {members : List Member} {profile : ProfileConfig}
    (h : Yields (parseProfile { name }) strict ⟨host, path, members⟩ profile) :
      ProfileStrings host name members profile := by
  obtain ⟨provider, hprovider, h⟩ := yields_bind.mp h
  obtain ⟨protocol, hprotocol, h⟩ := yields_bind.mp h
  obtain ⟨model, hmodel, h⟩ := yields_bind.mp h
  obtain ⟨baseUrl, hbaseUrl, h⟩ := yields_bind.mp h
  obtain ⟨apiKeyEnv, hapiKeyEnv, h⟩ := yields_bind.mp h
  obtain ⟨pricing, -, h⟩ := yields_bind.mp h
  obtain ⟨thinkingBudget, -, h⟩ := yields_bind.mp h
  obtain ⟨cache, -, h⟩ := yields_bind.mp h
  obtain rfl := yields_pure.mp h
  obtain ⟨parsed, hparsed, hor⟩ := yields_bind.mp hprotocol
  obtain rfl := yields_pure.mp hor
  exact {
    name := rfl
    provider := requiredString_holds hprovider
    protocol := by
      rw [Option.or_none]
      exact holds_take tells_string hparsed
    model := requiredString_holds hmodel
    baseUrl := requiredString_holds hbaseUrl
    apiKeyEnv := requiredString_holds hapiKeyEnv }

theorem parseRoute_strings {name path : Bytes} {members : List Member} {route : RouteConfig}
    (h : Yields (parseRoute { name }) strict ⟨host, path, members⟩ route) :
      RouteStrings host name members route := by
  obtain ⟨primary, hprimary, h⟩ := yields_bind.mp h
  obtain ⟨fallbacks, hfallbacks, h⟩ := yields_bind.mp h
  obtain rfl := yields_pure.mp h
  exact ⟨rfl, requiredString_holds hprimary, strings_hold hfallbacks⟩

theorem parseRule_strings {verdict : Verdict} {path : Bytes} {members : List Member}
    {rule : PermissionRuleConfig}
    (h : Yields (parseRuleFields verdict) strict ⟨host, path, members⟩ rule) :
    RuleStrings host verdict members rule := by
  obtain ⟨toolPattern, htool, h⟩ := yields_bind.mp h
  obtain ⟨capability, -, h⟩ := yields_bind.mp h
  obtain ⟨inputPattern, hinput, h⟩ := yields_bind.mp h
  obtain ⟨replayMax, -, h⟩ := yields_bind.mp h
  obtain ⟨approvalTtlSeconds, -, h⟩ := yields_bind.mp h
  obtain rfl := yields_pure.mp h
  exact ⟨rfl, requiredString_holds htool,
    holds_take (tells_plain fun _ _ _ => patternValue_expands) hinput⟩

theorem parseWorkspace_strings {path : Bytes} {members : List Member}
    {workspace : WorkspacePermissionsConfig}
    (h : Yields (parseWorkspace {}) strict ⟨host, path, members⟩ workspace) :
    WorkspaceStrings host members workspace := by
  obtain ⟨readRoots, hread, h⟩ := yields_bind.mp h
  obtain ⟨writeRoots, hwrite, h⟩ := yields_bind.mp h
  obtain rfl := yields_pure.mp h
  exact ⟨strings_hold hread, strings_hold hwrite⟩

/-- The loop over the members reads the rules of one after the other. -/
theorem parseVerdicts_strings {path : Bytes} {members rest : List Member}
    {rules : List PermissionRuleConfig}
    (h : Yields (parseVerdicts rest) strict ⟨host, path, members⟩ rules) :
    ∃ parts : List (List PermissionRuleConfig), rules = parts.flatten ∧
      List.Forall₂ (MemberRules host members) rest parts := by
  induction rest generalizing rules with
  | nil =>
    obtain rfl := yields_pure.mp h
    exact ⟨[], rfl, .nil⟩
  | cons member rest ih =>
    unfold parseVerdicts at h
    rcases hverdict : parseVerdict member.1 with _ | verdict
    · rw [hverdict] at h
      obtain ⟨parts, rfl, hparts⟩ := ih h
      refine ⟨[] :: parts, rfl, .cons ?_ hparts⟩
      rw [MemberRules, hverdict]
    · rw [hverdict] at h
      obtain ⟨first, hfirst, h⟩ := yields_bind.mp h
      obtain ⟨more, hmore, h⟩ := yields_bind.mp h
      obtain rfl := yields_pure.mp h
      obtain ⟨parts, rfl, hparts⟩ := ih hmore
      refine ⟨first.getD [] :: parts, rfl, .cons ?_ hparts⟩
      have hrule : Tells (fun host strict value path => parseRule host strict verdict value path)
        host strict
          (Within (RuleStrings host verdict)) := fun value path found hfound => by
        dsimp only at hfound
        rw [parseRule_eq] at hfound
        exact tells_nested (fun _ _ _ => parseRule_strings) value path found hfound
      rw [MemberRules, hverdict]
      exact (holds_take (tells_arrayOf hrule) hfirst).getD []

theorem parsePermissions_strings {path : Bytes} {members : List Member}
    {permissions : PermissionsConfig}
    (h : Yields (parsePermissions {}) strict ⟨host, path, members⟩ permissions) :
    PermissionStrings host members permissions := by
  obtain ⟨workspace, hworkspace, h⟩ := yields_bind.mp h
  obtain ⟨rules, hrules, h⟩ := yields_bind.mp h
  obtain rfl := yields_pure.mp h
  exact ⟨object_holds (fun _ _ _ => parseWorkspace_strings) hworkspace,
    parseVerdicts_strings hrules⟩

theorem parseRecall_strings {path : Bytes} {members : List Member}
    {out : LongtermMemoryRecallConfig}
    (h : Yields (parseRecall {}) strict ⟨host, path, members⟩ out) :
    KindStrings host members out := by
  obtain ⟨enabled, -, h⟩ := yields_bind.mp h
  obtain ⟨limit, -, h⟩ := yields_bind.mp h
  obtain ⟨kinds, hkinds, h⟩ := yields_bind.mp h
  obtain ⟨present, -, h⟩ := yields_bind.mp h
  obtain ⟨checked, -, h⟩ := yields_bind.mp h
  obtain rfl := yields_pure.mp h
  exact strings_hold hkinds

theorem parseMemory_strings {path : Bytes} {members : List Member} {memory : MemoryConfig}
    (h : Yields (parseMemory {}) strict ⟨host, path, members⟩ memory) :
      MemoryStrings host members memory := by
  obtain ⟨longterm, hlongterm, h⟩ := yields_bind.mp h
  obtain rfl := yields_pure.mp h
  refine object_holds (fun path members longterm h => ?_) hlongterm
  obtain ⟨out, hout, h⟩ := yields_bind.mp h
  obtain rfl := yields_pure.mp h
  exact object_holds (fun _ _ _ => parseRecall_strings) hout

theorem parseSections_strings {strictConfig : Bool} {path : Bytes} {members : List Member}
    {config : Config} (h : Yields (parseSections { strictConfig }) strict ⟨host, path,
    members⟩ config) :
    DocumentStrings host members config := by
  obtain ⟨runtime, -, h⟩ := yields_bind.mp h
  obtain ⟨profiles, hprofiles, h⟩ := yields_bind.mp h
  obtain ⟨routes, hroutes, h⟩ := yields_bind.mp h
  obtain ⟨trace, -, h⟩ := yields_bind.mp h
  obtain ⟨hooks, -, h⟩ := yields_bind.mp h
  obtain ⟨memory, hmemory, h⟩ := yields_bind.mp h
  obtain ⟨permissions, hpermissions, h⟩ := yields_bind.mp h
  obtain rfl := yields_pure.mp h
  exact {
    profiles := entries_hold (fun _ _ _ _ => parseProfile_strings) hprofiles
    routes := entries_hold (fun _ _ _ _ => parseRoute_strings) hroutes
    memory := object_holds (fun _ _ _ => parseMemory_strings) hmemory
    permissions := object_holds (fun _ _ _ => parsePermissions_strings) hpermissions }

/-- Warnings are no part of the strings. -/
theorem ofRoot_strings {options : LoadOptions} {root : Value} {config : Config}
    (h : Config.ofRoot host options root = .ok config) :
      Within (DocumentStrings host) root config := by
  cases root with
  | object members =>
    obtain ⟨first, -, h⟩ := bind_ok h
    obtain ⟨sections, hsections, h⟩ := bind_ok h
    obtain ⟨unknown, -, h⟩ := bind_ok h
    cases h
    have hstrings := parseSections_strings ⟨sections, hsections, rfl⟩
    exact ⟨members, rfl, hstrings.profiles, hstrings.routes, hstrings.memory, hstrings.permissions⟩
  | _ => cases h

end Orangutan.Config
