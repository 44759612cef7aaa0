import Mathlib.Data.List.Perm.Basic
import Orangutan.Config.Sections

/-!
# What the sections recognise

The shape of a value says which of its objects are read by their fields. It has the members that no
field claims, and the value without them. A parser settles on a shape when it reads just that much:
it warns of those members, fails on them when strict, and is not changed by them otherwise.
-/

namespace Orangutan.Config

set_option autoImplicit false

open Orangutan.Core

inductive Shape
  | leaf
  | object (claims : Bytes → Bool) (part : Bytes → Shape)
  | named (part : Shape)
  | list (part : Shape)

namespace Shape

/-- The paths of the members that no field claims, in the order of the document. -/
def unclaimed : Shape → Value → Bytes → List Bytes
  | .object claims part, .object members, path =>
    members.flatMap fun member =>
      if claims member.1 then unclaimed (part member.1) member.2 (childPath path member.1)
        else [childPath path member.1]
  | .named part, .object members, path => (entriesOf path members).flatMap fun entry =>
      unclaimed part entry.2.2 entry.2.1
  | .list part, .array items, path => (elements path items).flatMap fun element =>
      unclaimed part element.2.2 element.2.1
  | _, _, _ => []

/-- The value without them. -/
def prune : Shape → Value → Value
  | .object claims part, .object members =>
    .object ((members.filter fun member => claims member.1).map fun member => (member.1,
      prune (part member.1) member.2))
  | .named part, .object members =>
      .object (members.map fun member => (member.1, prune part member.2))
  | .list part, .array items => .array (items.map (prune part))
  | _, value => value

end Shape

/-- The fields of a section. -/
structure Table where
  entries : List (String × Shape)
  distinct : (entries.map fun entry => text entry.1).Nodup

namespace Table

def keys (table : Table) : List String := table.entries.map Prod.fst

def claims (table : Table) (key : Bytes) : Bool := table.entries.any fun entry =>
    text entry.1 == key

def part (table : Table) (key : Bytes) : Shape :=
  ((table.entries.find? fun entry => text entry.1 == key).map Prod.snd).getD .leaf

def shape (table : Table) : Shape := .object table.claims table.part

def prune (table : Table) (members : List Member) : List Member :=
  (members.filter fun member => table.claims member.1).map fun member =>
    (member.1, (table.part member.1).prune member.2)

variable {table : Table} {key : String} {shape : Shape}

theorem claims_of_mem (h : (key, shape) ∈ table.entries) : table.claims (text key) = true :=
  List.any_eq_true.mpr ⟨_, h, beq_self_eq_true _⟩

theorem part_of_mem (h : (key, shape) ∈ table.entries) : table.part (text key) = shape := by
  rcases hfind : table.entries.find? fun entry => text entry.1 == text key with _ | entry
  · exact absurd (beq_self_eq_true _) (List.find?_eq_none.mp hfind _ h)
  · have hkey := List.find?_some hfind
    have hentry := List.inj_on_of_nodup_map table.distinct
      (List.mem_of_find?_eq_some hfind) h (eq_of_beq hkey)
    rw [part, hfind, hentry]
    rfl

theorem find_prune (hclaims : table.claims (text key) = true) (members : List Member) :
    (table.prune members).find? (·.1 == text key) =
      (members.find? (·.1 == text key)).map fun member =>
        (member.1, (table.part member.1).prune member.2) := by
  induction members with
  | nil => rfl
  | cons member members ih =>
    by_cases hkey : member.1 = text key
    · have hhead : table.claims member.1 = true := by rw [hkey]; exact hclaims
      rw [prune, List.filter_cons, if_pos hhead, List.map_cons,
        List.find?_cons_of_pos (by simpa using hkey), List.find?_cons_of_pos (by simpa using hkey)]
      rfl
    · rw [List.find?_cons_of_neg (by simpa using hkey), ← ih, prune, prune, List.filter_cons]
      by_cases hhead : table.claims member.1 = true
      · rw [if_pos hhead, List.map_cons, List.find?_cons_of_neg (by simpa using hkey)]
      · rw [if_neg hhead]

end Table

/-- A parser reads a value by its shape. -/
structure Settles {α : Type} (shape : Shape) (parse : Parser α) : Prop where
  strict : ∀ {host value path r}, parse host true value path = .ok r ↔
    parse host false value path = .ok r ∧ r.2 = []
  warned : ∀ {host value path r}, value.Distinct → parse host false value path = .ok r →
    r.2.Perm (shape.unclaimed value path)
  pruned : ∀ {host value path r}, parse host false value path = .ok r →
    parse host false (shape.prune value) path = .ok (r.1, [])

def View.prune (view : View) (table : Table) : View :=
    { view with members := table.prune view.members }

/-- The warnings below the value of a key. -/
def View.below (view : View) (table : Table) (key : String) : List Bytes :=
  match view.members.find? (·.1 == text key) with
  | none => []
  | some member => (table.part (text key)).unclaimed member.2 (childPath view.path (text key))

/-- Reads of an object claim `keys` of a section, and do the same on the object without its
unclaimed members, where they may be spelled `pruned`. -/
structure Reads {α : Type} (table : Table) (view : View) (keys : List String)
    (read pruned : Read α) : Prop where
  strict : ∀ r, read true view = .ok r ↔ read false view = .ok r ∧ r.warnings = []
  known : ∀ r, read false view = .ok r → r.known = keys
  warned : ∀ r, (∀ member ∈ view.members, member.2.Distinct) → read false view = .ok r →
    r.warnings.Perm (keys.flatMap (view.below table))
  same : ∀ r, read false view = .ok r →
    pruned false (view.prune table) = .ok { r with warnings := [] }

namespace Reads

variable {α β : Type} {table : Table} {view : View} {keys keys' : List String}

theorem bind_ok {p : Read α} {f : α → Read β} {strict : Bool} {view : View} {r : Reading β} :
    (p >>= f) strict view = .ok r ↔ ∃ first second, p strict view = .ok first ∧
      f first.value strict view = .ok second ∧
      r = ⟨second.value, first.known ++ second.known, first.warnings ++ second.warnings⟩ := by
  change Read.bind p f strict view = .ok r ↔ _
  unfold Read.bind
  rcases hp : p strict view with e | first
  · simp
  · rcases hf : f first.value strict view with e | second
    · simp [hf]
    · simp [hf, eq_comm]

protected theorem pure (a : α) : Reads table view [] (pure a) (pure a) where
  strict r := by
    refine ⟨fun h => ⟨h, ?_⟩, And.left⟩
    cases h
    rfl
  known r h := by
    cases h
    rfl
  warned r _ h := by
    cases h
    exact List.Perm.refl _
  same r h := by
    cases h
    rfl

protected theorem bind {p p' : Read α} {f f' : α → Read β} (hp : Reads table view keys p p')
    (hf : ∀ a, Reads table view keys' (f a) (f' a)) :
      Reads table view (keys ++ keys') (p >>= f) (p' >>= f') where
  strict r := by
    rw [bind_ok, bind_ok]
    constructor
    · rintro ⟨first, second, hfirst, hsecond, rfl⟩
      obtain ⟨hfirst, hnone⟩ := (hp.strict first).mp hfirst
      obtain ⟨hsecond, hnone'⟩ := ((hf first.value).strict second).mp hsecond
      exact ⟨⟨first, second, hfirst, hsecond, rfl⟩, List.append_eq_nil_iff.mpr ⟨hnone, hnone'⟩⟩
    · rintro ⟨⟨first, second, hfirst, hsecond, rfl⟩, hnone⟩
      obtain ⟨hnone, hnone'⟩ := List.append_eq_nil_iff.mp hnone
      exact ⟨first, second, (hp.strict first).mpr ⟨hfirst, hnone⟩,
        ((hf first.value).strict second).mpr ⟨hsecond, hnone'⟩, rfl⟩
  known r h := by
    obtain ⟨first, second, hfirst, hsecond, rfl⟩ := bind_ok.mp h
    rw [hp.known first hfirst, (hf first.value).known second hsecond]
  warned r hdistinct h := by
    obtain ⟨first, second, hfirst, hsecond, rfl⟩ := bind_ok.mp h
    rw [List.flatMap_append]
    exact (hp.warned first hdistinct hfirst).append
      ((hf first.value).warned second hdistinct hsecond)
  same r h := by
    obtain ⟨first, second, hfirst, hsecond, rfl⟩ := bind_ok.mp h
    exact bind_ok.mpr ⟨_, _, hp.same first hfirst, (hf first.value).same second hsecond, rfl⟩

protected theorem contains {key : String} {shape : Shape} (hkey : (key, shape) ∈ table.entries) :
    Reads table view [] (Fields.contains key) (Fields.contains key) where
  strict r := by
    refine ⟨fun h => ⟨h, ?_⟩, And.left⟩
    cases h
    rfl
  known r h := by
    cases h
    rfl
  warned r _ h := by
    cases h
    exact List.Perm.refl _
  same r h := by
    cases h
    have hany : ∀ members : List Member,
        members.any (·.1 == text key) = (members.find? (·.1 == text key)).isSome :=
          fun members => by
      rw [List.isSome_find?]
    rw [Fields.contains, View.prune, hany, hany, Table.find_prune (Table.claims_of_mem hkey),
      Option.isSome_map]

theorem check_ok {valid : Bytes → Result Unit} {strict : Bool} {r : Reading Unit} :
    Fields.check valid strict view = .ok r ↔ valid view.path = .ok () ∧ r = { value := () } := by
  rw [Fields.check]
  rcases valid view.path with e | u
  · simp
  · simp [eq_comm]

protected theorem check (valid : Bytes → Result Unit) :
    Reads table view [] (Fields.check valid) (Fields.check valid) where
  strict r := by
    rw [check_ok, check_ok]
    refine ⟨fun h => ⟨h, ?_⟩, And.left⟩
    rw [h.2]
  known r h := by
    rw [(check_ok.mp h).2]
  warned r _ h := by
    rw [(check_ok.mp h).2]
    exact List.Perm.refl _
  same r h := by
    obtain ⟨hvalid, rfl⟩ := check_ok.mp h
    exact check_ok.mpr ⟨hvalid, rfl⟩

/-- The one read of a value, when it has the shape that the section gives its key. -/
protected theorem take {key : String} {shape : Shape} {parse : Parser α}
    (hkey : (key, shape) ∈ table.entries) (hparse : Settles shape parse) :
    Reads table view [key] (Fields.take key parse) (Fields.take key parse) := by
  have hpart := Table.part_of_mem hkey
  rcases hfind : view.members.find? (·.1 == text key) with _ | member
  · have htake : ∀ strict, Fields.take key parse strict view =
        .ok { value := none, known := [key] } := fun strict => by
      rw [Fields.take, hfind]
    refine ⟨fun r => ?_, fun r h => ?_, fun r _ h => ?_, fun r h => ?_⟩
    · rw [htake, htake]
      refine ⟨fun h => ⟨h, ?_⟩, And.left⟩
      cases h
      rfl
    · rw [htake] at h
      cases h
      rfl
    · rw [htake] at h
      cases h
      simp [View.below, hfind]
    · rw [htake] at h
      cases h
      rw [Fields.take, View.prune, Table.find_prune (Table.claims_of_mem hkey), hfind]
      rfl
  · have hname : member.1 = text key := by simpa using List.find?_some hfind
    have hok : ∀ strict r, Fields.take key parse strict view = .ok r ↔
        ∃ found, parse view.host strict member.2 (childPath view.path (text key)) = .ok found ∧
          r = ⟨some found.1, [key], found.2⟩ := by
      intro strict r
      rw [Fields.take, hfind]
      dsimp only
      rcases parse view.host strict member.2 (childPath view.path (text key)) with e | found
      · simp
      · simp [eq_comm]
    refine ⟨fun r => ?_, fun r h => ?_, fun r hdistinct h => ?_, fun r h => ?_⟩
    · rw [hok, hok]
      constructor
      · rintro ⟨found, hfound, rfl⟩
        obtain ⟨hfound, hnone⟩ := hparse.strict.mp hfound
        exact ⟨⟨found, hfound, rfl⟩, hnone⟩
      · rintro ⟨⟨found, hfound, rfl⟩, hnone⟩
        exact ⟨found, hparse.strict.mpr ⟨hfound, hnone⟩, rfl⟩
    · obtain ⟨found, -, rfl⟩ := (hok false r).mp h
      rfl
    · obtain ⟨found, hfound, rfl⟩ := (hok false r).mp h
      rw [List.flatMap_cons, List.flatMap_nil, List.append_nil, View.below, hfind, hpart]
      exact hparse.warned (hdistinct member (List.mem_of_find?_eq_some hfind)) hfound
    · obtain ⟨found, hfound, rfl⟩ := (hok false r).mp h
      have hpruned := hparse.pruned hfound
      rw [Fields.take, View.prune, Table.find_prune (Table.claims_of_mem hkey), hfind,
        Option.map_some]
      dsimp only
      rw [hname, hpart, hpruned]

end Reads

namespace Settles

variable {α ι : Type} {part : Shape}

theorem plain_ok {parse : Host → Value → Bytes → Result α} {host : Host} {strict : Bool}
    {value : Value} {path : Bytes} {r : α × List Bytes} :
    plain parse host strict value path = .ok r ↔ ∃ a, parse host value path = .ok a ∧
    r = (a, []) := by
  rw [plain]
  rcases parse host value path with e | a
  · simp
  · simp [eq_comm]

protected theorem plain (parse : Host → Value → Bytes → Result α) :
    Settles .leaf (plain parse) where
  strict := by
    intro host value path r
    rw [plain_ok, plain_ok]
    refine ⟨fun h => ⟨h, ?_⟩, And.left⟩
    obtain ⟨a, -, rfl⟩ := h
    rfl
  warned := by
    intro host value path r _ h
    obtain ⟨a, -, rfl⟩ := plain_ok.mp h
    exact List.Perm.refl _
  pruned := by
    intro host value path r h
    have hsame : Shape.leaf.prune value = value := by cases value <;> rfl
    obtain ⟨a, ha, rfl⟩ := plain_ok.mp h
    rw [hsame]
    exact h

theorem each_cons_ok {parse : ι → Parser α} {host : Host} {strict : Bool} {i : ι} {path : Bytes}
    {value : Value} {rest : List (ι × Bytes × Value)} {r : List α × List Bytes} :
    each parse host strict ((i, path, value) :: rest) = .ok r ↔ ∃ first more,
      parse i host strict value path = .ok first ∧
      each parse host strict rest = .ok more ∧ r = (first.1 :: more.1, first.2 ++ more.2) := by
  rw [each]
  rcases parse i host strict value path with e | first
  · simp
  · rcases each parse host strict rest with e | more
    · simp
    · simp [eq_comm]

theorem each_strict {parse : ι → Parser α} (hparse : ∀ i, Settles part (parse i)) {host : Host}
    {entries : List (ι × Bytes × Value)} {r : List α × List Bytes} :
    each parse host true entries = .ok r ↔ each parse host false entries = .ok r ∧ r.2 = [] := by
  induction entries generalizing r with
  | nil =>
    refine ⟨fun h => ⟨h, ?_⟩, And.left⟩
    cases h
    rfl
  | cons entry rest ih =>
    obtain ⟨i, path, value⟩ := entry
    rw [each_cons_ok, each_cons_ok]
    constructor
    · rintro ⟨first, more, hfirst, hmore, rfl⟩
      obtain ⟨hfirst, hnone⟩ := (hparse i).strict.mp hfirst
      obtain ⟨hmore, hnone'⟩ := ih.mp hmore
      exact ⟨⟨first, more, hfirst, hmore, rfl⟩, List.append_eq_nil_iff.mpr ⟨hnone, hnone'⟩⟩
    · rintro ⟨⟨first, more, hfirst, hmore, rfl⟩, hnone⟩
      obtain ⟨hnone, hnone'⟩ := List.append_eq_nil_iff.mp hnone
      exact ⟨first, more, (hparse i).strict.mpr ⟨hfirst, hnone⟩, ih.mpr ⟨hmore, hnone'⟩, rfl⟩

theorem each_warned {parse : ι → Parser α} (hparse : ∀ i, Settles part (parse i)) {host : Host}
    {entries : List (ι × Bytes × Value)} {r : List α × List Bytes} (hdistinct : ∀ entry ∈ entries,
      entry.2.2.Distinct)
    (h : each parse host false entries = .ok r) :
      r.2.Perm (entries.flatMap fun entry => part.unclaimed entry.2.2 entry.2.1) := by
  induction entries generalizing r with
  | nil =>
    cases h
    exact List.Perm.refl _
  | cons entry rest ih =>
    obtain ⟨i, path, value⟩ := entry
    obtain ⟨first, more, hfirst, hmore, rfl⟩ := each_cons_ok.mp h
    exact ((hparse i).warned (hdistinct _ List.mem_cons_self) hfirst).append
      (ih (fun entry hentry => hdistinct entry (List.mem_cons_of_mem _ hentry)) hmore)

theorem each_pruned {parse : ι → Parser α} (hparse : ∀ i, Settles part (parse i)) {host : Host}
    {entries : List (ι × Bytes × Value)} {r : List α × List Bytes}
      (h : each parse host false entries = .ok r) :
    each parse host false (entries.map fun entry => (entry.1, entry.2.1, part.prune entry.2.2)) =
      .ok (r.1, []) := by
  induction entries generalizing r with
  | nil =>
    cases h
    rfl
  | cons entry rest ih =>
    obtain ⟨i, path, value⟩ := entry
    obtain ⟨first, more, hfirst, hmore, rfl⟩ := each_cons_ok.mp h
    exact each_cons_ok.mpr ⟨_, _, (hparse i).pruned hfirst, ih hmore, rfl⟩

protected theorem arrayOf {parse : Parser α} (hparse : Settles part parse) :
    Settles (.list part) (arrayOf parse) where
  strict := by
    intro host value path r
    cases value with
    | array items => exact each_strict fun _ => hparse
    | _ => simp [arrayOf]
  warned := by
    intro host value path r hdistinct h
    cases hdistinct with
    | array hitems =>
      refine each_warned (fun _ => hparse) ?_ h
      intro element helement
      obtain ⟨item, hitem, rfl⟩ := List.mem_map.mp helement
      exact hitems _ (List.fst_mem_of_mem_zipIdx hitem)
    | _ => cases h
  pruned := by
    intro host value path r h
    cases value with
    | array items =>
      have hpruned := each_pruned (fun _ => hparse) h
      rw [elements, List.map_map] at hpruned
      rw [Shape.prune, arrayOf, elements, List.zipIdx_map, List.map_map]
      exact hpruned
    | _ => cases h

protected theorem namedBy {parse : Bytes → Parser α} (hparse : ∀ name, Settles part (parse name)) :
    Settles (.named part) (namedBy parse) where
  strict := by
    intro host value path r
    cases value with
    | object members => exact each_strict hparse
    | _ => simp [namedBy]
  warned := by
    intro host value path r hdistinct h
    cases hdistinct with
    | object hkeys hmembers =>
      refine each_warned hparse ?_ h
      intro entry hentry
      obtain ⟨member, hmember, rfl⟩ := List.mem_map.mp hentry
      exact hmembers member hmember
    | _ => cases h
  pruned := by
    intro host value path r h
    cases value with
    | object members =>
      have hpruned := each_pruned hparse h
      rw [entriesOf, List.map_map] at hpruned
      rw [Shape.prune, namedBy, entriesOf, List.map_map]
      exact hpruned
    | _ => cases h

/-- The members of distinct keys, looked up one by one. -/
theorem filterMap_find_perm {members : List Member} {keys : List Bytes}
    (hmembers : (members.map Prod.fst).Nodup) (hkeys : keys.Nodup) :
    (keys.filterMap fun key => members.find? (·.1 == key)).Perm
      (members.filter fun member => keys.contains member.1) := by
  have hnodup : (keys.filterMap fun key => members.find? (·.1 == key)).Nodup := by
    refine List.Nodup.filterMap (fun key key' member hfind hfind' => ?_) hkeys
    have hkey : member.1 = key := by simpa using List.find?_some hfind
    have hkey' : member.1 = key' := by simpa using List.find?_some hfind'
    exact hkey.symm.trans hkey'
  refine (List.perm_ext_iff_of_nodup hnodup (hmembers.of_map.filter _)).mpr fun member => ?_
  rw [List.mem_filterMap, List.mem_filter, List.contains_iff_mem]
  constructor
  · rintro ⟨key, hkey, hfind⟩
    have hname : member.1 = key := by simpa using List.find?_some hfind
    exact ⟨List.mem_of_find?_eq_some hfind, hname ▸ hkey⟩
  · rintro ⟨hmember, hkey⟩
    refine ⟨member.1, hkey, ?_⟩
    have hsome : (members.find? (·.1 == member.1)).isSome = true :=
      List.find?_isSome.mpr ⟨member, hmember, beq_self_eq_true member.1⟩
    obtain ⟨found, hfind⟩ := Option.isSome_iff_exists.mp hsome
    have hname : found.1 = member.1 := by simpa using List.find?_some hfind
    rw [hfind, List.inj_on_of_nodup_map hmembers (List.mem_of_find?_eq_some hfind) hmember hname]

theorem flatMap_filterMap {β γ : Type} (f : α → Option β) (g : β → List γ) (l : List α) :
    (l.filterMap f).flatMap g = l.flatMap fun a => ((f a).map g).getD [] := by
  induction l with
  | nil => rfl
  | cons a l ih =>
    rw [List.filterMap_cons, List.flatMap_cons, ← ih]
    cases f a with
    | none => rfl
    | some b => rw [List.flatMap_cons]; rfl

/-- The members without a claim, and what stands below the claimed ones. -/
theorem unclaimed_perm {table : Table} {view : View} {keys : List String}
    (hmembers : (view.members.map Prod.fst).Nodup) (hkeys : (keys.map text).Nodup)
    (hknown : ∀ member ∈ view.members, (keys.any fun key => text key == member.1) =
    table.claims member.1) :
    (keys.flatMap (view.below table) ++
      (view.members.filter fun member => !keys.any fun key => text key == member.1).map
          fun member =>
        childPath view.path member.1).Perm
          (table.shape.unclaimed (.object view.members) view.path) := by
  have hcontains : ∀ name : Bytes, (keys.map text).contains name = keys.any fun key =>
      text key == name := by
    intro name
    rw [List.contains_eq_any_beq, List.any_map]
    exact congrArg keys.any (funext fun key => by rw [Function.comp, Bool.beq_comm])
  let found : Member → List Bytes := fun member =>
    if table.claims member.1
      then (table.part member.1).unclaimed member.2 (childPath view.path member.1)
    else [childPath view.path member.1]
  -- below the keys stand the claimed members, each once
  have hone : ∀ key ∈ keys,
      view.below table key = ((view.members.find? (·.1 == text key)).map found).getD [] := by
    intro key hkey
    rw [View.below]
    rcases hfind : view.members.find? (·.1 == text key) with _ | member
    · rw [hfind]
      rfl
    · have hname : member.1 = text key := by simpa using List.find?_some hfind
      have hclaims : table.claims (text key) = true := by
        rw [← hname, ← hknown member (List.mem_of_find?_eq_some hfind)]
        exact List.any_eq_true.mpr ⟨key, hkey, by rw [hname]; exact beq_self_eq_true _⟩
      have hfound : found member = (table.part (text key)).unclaimed member.2
          (childPath view.path (text key)) := by
        rw [← hname] at hclaims ⊢
        exact if_pos hclaims
      rw [hfind, Option.map_some, Option.getD_some, hfound]
  have hbelow : (keys.flatMap (view.below table)).Perm
      ((view.members.filter fun member => (keys.map text).contains member.1).flatMap found) := by
    have hlookup := (filterMap_find_perm hmembers hkeys).flatMap_right found
    rw [flatMap_filterMap, List.flatMap_map] at hlookup
    rw [List.flatMap_congr hone]
    exact hlookup
  have hrest : ((view.members.filter fun member => !keys.any fun key => text key == member.1).map
      fun member =>
      childPath view.path member.1) =
      (view.members.filter fun member => !(keys.map text).contains member.1).flatMap found := by
    rw [List.map_eq_flatMap]
    simp only [hcontains]
    refine List.flatMap_congr fun member hmember => ?_
    obtain ⟨hmember, hnone⟩ := List.mem_filter.mp hmember
    rw [hknown member hmember] at hnone
    exact (if_neg (by simpa using hnone)).symm
  rw [hrest]
  have hsplit :=
    (List.filter_append_perm
    (fun member => (keys.map text).contains member.1) view.members).flatMap_right found
  rw [List.flatMap_append] at hsplit
  exact (hbelow.append_right _).trans hsplit

theorem finish_strict {members : List Member} {path : Bytes} {known : List String}
    {unknown : List Bytes} :
    finish members path known true = .ok unknown ↔ finish members path known false = .ok unknown ∧
      unknown = [] := by
  unfold finish
  dsimp only
  generalize (members.filter fun m => !known.any fun key => text key == m.1).map
    (fun m => childPath path m.1) = paths
  cases paths with
  | nil => simp [eq_comm]
  | cons first rest =>
    refine iff_of_false (fun h => by cases h) ?_
    rintro ⟨h, rfl⟩
    cases h

theorem finish_lenient {members : List Member} {path : Bytes} {known : List String} :
    finish members path known false =
      .ok ((members.filter fun m => !known.any fun key => text key == m.1).map
        fun m => childPath path m.1) := by
  unfold finish
  dsimp only
  generalize (members.filter fun m => !known.any fun key => text key == m.1).map
    (fun m => childPath path m.1) = paths
  cases paths with
  | nil => rfl
  | cons first rest => rfl

theorem nested_ok {parse : Read α} {host : Host} {strict : Bool} {members : List Member}
    {path : Bytes} {r : α × List Bytes} :
    nested parse host strict (.object members) path = .ok r ↔ ∃ reading unknown,
      parse strict ⟨host, path, members⟩ = .ok reading ∧
        finish members path reading.known strict = .ok unknown ∧
        r = (reading.value, reading.warnings ++ unknown) := by
  rw [nested]
  rcases parse strict ⟨host, path, members⟩ with e | reading
  · simp
  · rcases hfinish : finish members path reading.known strict with e | unknown
    · simp [hfinish]
    · simp [hfinish, eq_comm]

/-- A section whose reads claim the keys that its table gives to the members. -/
protected theorem nested {table : Table} {parse : Read α} (keys : List Member → List String)
    (hreads : ∀ view, Reads table view (keys view.members) parse parse)
    (hkeys : ∀ members, (members.map Prod.fst).Nodup → ((keys members).map text).Nodup)
    (hknown : ∀ members, ∀ member ∈ members, ((keys members).any fun key => text key == member.1) =
      table.claims member.1) :
    Settles table.shape (nested parse) where
  strict := by
    intro host value path r
    cases value with
    | object members =>
      have hread := hreads ⟨host, path, members⟩
      rw [nested_ok, nested_ok]
      constructor
      · rintro ⟨reading, unknown, hreading, hfinish, rfl⟩
        obtain ⟨hreading, hnone⟩ := (hread.strict reading).mp hreading
        obtain ⟨hfinish, hnone'⟩ := finish_strict.mp hfinish
        exact ⟨⟨reading, unknown, hreading, hfinish, rfl⟩,
          List.append_eq_nil_iff.mpr ⟨hnone, hnone'⟩⟩
      · rintro ⟨⟨reading, unknown, hreading, hfinish, rfl⟩, hnone⟩
        obtain ⟨hnone, hnone'⟩ := List.append_eq_nil_iff.mp hnone
        exact ⟨reading, unknown, (hread.strict reading).mpr ⟨hreading, hnone⟩,
          finish_strict.mpr ⟨hfinish, hnone'⟩, rfl⟩
    | _ => simp [Config.nested]
  warned := by
    intro host value path r hdistinct h
    cases hdistinct with
    | @object members hmembers hbelow =>
      obtain ⟨reading, unknown, hreading, hfinish, rfl⟩ := nested_ok.mp h
      have hread := hreads ⟨host, path, members⟩
      rw [hread.known reading hreading, finish_lenient] at hfinish
      cases hfinish
      exact ((hread.warned reading hbelow hreading).append_right _).trans
        (unclaimed_perm hmembers (hkeys members hmembers) (hknown members))
    | _ => cases h
  pruned := by
    intro host value path r h
    cases value with
    | object members =>
      obtain ⟨reading, unknown, hreading, hfinish, rfl⟩ := nested_ok.mp h
      have hread := hreads ⟨host, path, members⟩
      have hall : ∀ member ∈ table.prune members,
          (reading.known.any fun key => text key == member.1) = true := by
        intro member hmember
        obtain ⟨source, hsource, rfl⟩ := List.mem_map.mp hmember
        obtain ⟨hsource, hclaims⟩ := List.mem_filter.mp hsource
        rw [hread.known reading hreading]
        exact (hknown members source hsource).trans hclaims
      have hnone : (table.prune members).filter
          (fun m => !reading.known.any fun key => text key == m.1) = [] := by
        refine List.filter_eq_nil_iff.mpr fun member hmember => ?_
        rw [hall member hmember]
        decide
      have hclean : finish (table.prune members) path reading.known false = .ok [] := by
        rw [finish_lenient, hnone]
        rfl
      exact nested_ok.mpr ⟨{ reading with warnings := [] }, [], hread.same reading hreading,
        hclean, rfl⟩
    | _ => cases h

/-- A section whose reads claim just its table. -/
protected theorem fields {table : Table} {parse : Read α} {keys : List String}
    (hreads : ∀ view, Reads table view keys parse parse) (hkeys : keys = table.keys) :
      Settles table.shape (nested parse) := by
  subst hkeys
  refine Settles.nested (fun _ => table.keys) hreads (fun _ _ => ?_) fun _ member _ => ?_
  · rw [Table.keys, List.map_map]
    exact table.distinct
  · rw [Table.keys, List.any_map]
    rfl

end Settles

end Orangutan.Config
