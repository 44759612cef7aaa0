import Orangutan.Lib.Runs
import Orangutan.Storage.StatementCache

/-!
# What the statement cache keeps

The table and the recency list hold the same entries, the list is in the order of the latest
acquisitions, and an entry belongs to at most one lease. An entry that has left the list never
returns to it, whatever lease still holds it.
-/

namespace Orangutan.Storage

set_option autoImplicit false

open Orangutan.Core Orangutan.Lib Relation

/-- The recency list under the heap of entries and the log of acquisitions. -/
structure CacheState.Sound (capacity : Nat) (entries : Heap CacheEntry) (nodes : Nat)
    (handedOut : List EntryRef) (s : CacheState) : Prop where
  bounded : s.capacity = capacity
  indexed : Indexed (fun e => (entries.get e).sql) s.bySql s.lru
  ids : ∀ n ∈ s.lru, n.id < nodes
  known : ∀ n ∈ s.lru, n.val < entries.next
  size : s.lru.length ≤ capacity
  logged : ∀ n ∈ s.lru, n.val ∈ handedOut
  recent : Recent handedOut (Node.values s.lru)

namespace CacheState.Sound

variable {capacity nodes : Nat} {entries : Heap CacheEntry} {handedOut : List EntryRef}
  {s : CacheState}

theorem counters {hits misses evictions : Nat} (h : s.Sound capacity entries nodes handedOut) :
    CacheState.Sound capacity entries nodes handedOut { s with hits, misses, evictions } :=
  ⟨h.bounded, h.indexed, h.ids, h.known, h.size, h.logged, h.recent⟩

theorem values_nodup (h : s.Sound capacity entries nodes handedOut) : (Node.values s.lru).Nodup :=
  h.recent.imp fun hlt he => absurd hlt (by rw [he]; exact Nat.lt_irrefl _)

theorem eq_of_val (h : s.Sound capacity entries nodes handedOut) {n m : Node EntryRef}
    (hn : n ∈ s.lru) (hm : m ∈ s.lru) (he : n.val = m.val) : n = m :=
    List.inj_on_of_nodup_map h.values_nodup hn hm he

/-- Entries may change in all but their text, and be added. -/
theorem write (h : s.Sound capacity entries nodes handedOut) {entries' : Heap CacheEntry}
    (hsql : ∀ n ∈ s.lru, (entries'.get n.val).sql = (entries.get n.val).sql) (hnext : entries.next ≤
      entries'.next) :
    s.Sound capacity entries' nodes handedOut :=
  ⟨h.bounded, h.indexed.congr hsql, h.ids, fun n hn => Nat.lt_of_lt_of_le (h.known n hn) hnext,
    h.size, h.logged, h.recent⟩

theorem set (h : s.Sound capacity entries nodes handedOut) {e : EntryRef} {entry : CacheEntry}
    (hsql : entry.sql = (entries.get e).sql) :
      s.Sound capacity (entries.set e entry) nodes handedOut := by
  refine h.write (fun n _ => ?_) (le_refl _)
  rw [Heap.get_set]
  split
  · next he => rw [he, hsql]
  · rfl

theorem remove (h : s.Sound capacity entries nodes handedOut) {n : Node EntryRef} (hn : n ∈ s.lru) :
    (s.remove (entries.get n.val).sql n.id).Sound capacity entries nodes handedOut where
  bounded := h.bounded
  indexed := h.indexed.erase hn
  ids m hm := h.ids m (Node.mem_erase.mp hm).1
  known m hm := h.known m (Node.mem_erase.mp hm).1
  size := (Node.erase_sublist _ _).length_le.trans h.size
  logged m hm := h.logged m (Node.mem_erase.mp hm).1
  recent := h.recent.sublist ((Node.erase_sublist _ _).map _)

theorem val_notMem_erase (h : s.Sound capacity entries nodes handedOut) {n : Node EntryRef}
    (hn : n ∈ s.lru) :
    n.val ∉ Node.values (Node.erase s.lru n.id) := by
  intro hmem
  obtain ⟨m, hm, he⟩ := List.mem_map.mp hmem
  obtain ⟨hm, hid⟩ := Node.mem_erase.mp hm
  exact hid (congrArg Node.id (h.eq_of_val hm hn he))

/-- An acquisition moves the node of its entry to the front. -/
theorem splice (h : s.Sound capacity entries nodes handedOut) {n : Node EntryRef} (hn : n ∈ s.lru) :
    CacheState.Sound capacity entries nodes (n.val :: handedOut) { s with
      lru := Node.splice s.lru n.id } where
  bounded := h.bounded
  indexed := h.indexed.splice hn
  ids m hm := h.ids m (Node.mem_splice.mp hm)
  known m hm := h.known m (Node.mem_splice.mp hm)
  size := (Node.length_splice h.indexed.ids hn).trans h.size
  logged m hm := List.mem_cons_of_mem _ (h.logged m (Node.mem_splice.mp hm))
  recent := by
    dsimp only
    rw [Node.splice_eq h.indexed.ids hn]
    exact (h.recent.sublist ((Node.erase_sublist _ _).map _)).front (h.val_notMem_erase hn)

theorem next_notMem (h : s.Sound capacity entries nodes handedOut) :
    entries.next ∉ Node.values s.lru := by
  intro hmem
  obtain ⟨m, hm, he⟩ := List.mem_map.mp hmem
  have hlt := h.known m hm
  rw [he] at hlt
  exact absurd hlt (Nat.lt_irrefl _)

theorem alloc (h : s.Sound capacity entries nodes handedOut) (entry : CacheEntry) :
    s.Sound capacity (entries.alloc entry) nodes handedOut := by
  refine h.write (fun n hn => ?_) (Nat.le_succ _)
  rw [Heap.get_alloc_of_lt _ (h.known n hn)]

/-- A new entry goes to the front. -/
theorem pushFront (h : s.Sound capacity entries nodes handedOut) (entry : CacheEntry)
    (hroom : s.lru.length < capacity) (habsent : s.bySql.lookup entry.sql = none) :
    (s.pushFront entry.sql ⟨nodes, entries.next⟩).Sound capacity (entries.alloc entry) (nodes + 1)
      (entries.next :: handedOut) := by
  have halloc := h.alloc entry
  have hself : ((entries.alloc entry).get entries.next) = entry := Heap.get_alloc_next entries entry
  refine ⟨h.bounded, ?_, fun n hn => ?_, fun n hn => ?_, hroom, fun n hn => ?_,
    h.recent.front h.next_notMem⟩
  · have hid : nodes ∉ Node.ids s.lru := fun hmem => by
      obtain ⟨m, hm, he⟩ := List.mem_map.mp hmem
      have hlt := h.ids m hm
      omega
    have hpush := halloc.indexed.push (n := ⟨nodes, entries.next⟩) hid
      (by rw [hself]; exact habsent)
    rw [hself] at hpush
    unfold CacheState.pushFront
    rw [habsent]
    exact hpush
  · rcases List.mem_cons.mp hn with rfl | hn
    · exact Nat.lt_succ_self _
    · exact Nat.lt_succ_of_lt (h.ids n hn)
  · rcases List.mem_cons.mp hn with rfl | hn
    · exact Nat.lt_succ_self _
    · exact halloc.known n hn
  · rcases List.mem_cons.mp hn with rfl | hn
    · exact List.mem_cons_self
    · exact List.mem_cons_of_mem _ (h.logged n hn)

/-- An entry outside the list is handed out. -/
theorem log (h : s.Sound capacity entries nodes handedOut) {e : EntryRef}
    (he : e ∉ Node.values s.lru) :
    s.Sound capacity entries nodes (e :: handedOut) :=
  ⟨h.bounded, h.indexed, h.ids, h.known, h.size, fun n hn => List.mem_cons_of_mem _ (h.logged n hn),
    (List.pairwise_cons.mp (h.recent.front he)).2⟩

/-- A text without an iterator is the text of no listed entry. -/
theorem absent_remove (h : s.Sound capacity entries nodes handedOut) {sql : Bytes}
    (habsent : s.bySql.lookup sql = none) {n : Node EntryRef} (hn : n ∈ s.lru) :
    (s.remove (entries.get n.val).sql n.id).bySql.lookup sql = none := by
  have hne : sql ≠ (entries.get n.val).sql := by
    rintro rfl
    have hname := h.indexed.lookup_key hn
    rw [hname] at habsent
    cases habsent
  exact (AList.lookup_erase_ne hne).trans habsent

end CacheState.Sound

namespace StatementCache

variable {capacity : Nat} {c d : StatementCache}

structure Inv (capacity : Nat) (c : StatementCache) : Prop where
  cache : ∀ s, c.state = some s → s.Sound capacity c.entries c.nodes c.handedOut
  opened : ∀ h e, (c.lease h).entry = some e → (c.lease h).released = false
  leased : ∀ h e, (c.lease h).entry = some e → h < c.leases.next ∧ e < c.entries.next ∧
    (c.entry e).leased = true
  exclusive : ∀ h k e, (c.lease h).entry = some e → (c.lease k).entry = some e → h = k

/-- The entry has a node in the recency list. -/
def Listed (c : StatementCache) (e : EntryRef) : Prop := ∃ s, c.state = some s ∧
    ∃ n ∈ s.lru, n.val = e

/-- The outcomes of `acquire`. -/
inductive Acquired (c : StatementCache) (sql : Bytes) : Result LeaseRef → StatementCache → Prop
  | refused (error : Error) : Acquired c sql (.error error) c
  | unprepared (s : CacheState) (error : Error) (state : c.state = some s) :
      Acquired c sql (.error error) { c with state := some { s with misses := s.misses + 1 } }
  | dropped (s : CacheState) (n : Node EntryRef) (stmt : Statement) (error : Error)
      (state : c.state = some s)
      (listed : n ∈ s.lru) (same : (c.entry n.val).sql = sql)
        (free : (c.entry n.val).leased = false) :
      Acquired c sql (.error error)
        { c.setEntry n.val { c.entry n.val with stmt } with
          state := some (s.remove (c.entry n.val).sql n.id) }
  | reused (s : CacheState) (n : Node EntryRef) (state : c.state = some s) (listed : n ∈ s.lru)
      (same : (c.entry n.val).sql = sql) (free : (c.entry n.val).leased = false) :
      Acquired c sql (.ok c.leases.next)
        (buildLease { c.setEntry n.val { c.entry n.val with stmt := {}, leased := true } with
          state := some { s with lru := Node.splice s.lru n.id, hits := s.hits + 1 } } n.val).2
  | added (s t : CacheState) (state : c.state = some s) (room : t.lru.length < t.capacity)
      (absent : t.bySql.lookup sql = none)
      (made : t = { s with misses := s.misses + 1 } ∨
        s.capacity ≤ s.lru.length ∧ ∃ v, c.victim s.lru = some v ∧
          t = { s.remove (c.entry v.val).sql v.id with
            misses := s.misses + 1, evictions := s.evictions + 1 }) :
      Acquired c sql (.ok c.leases.next)
        (buildLease { c with
          state := some (t.pushFront sql ⟨c.nodes, c.entries.next⟩)
          entries := c.entries.alloc { sql, leased := true }
          nodes := c.nodes + 1 } c.entries.next).2
  | orphaned (s : CacheState) (state : c.state = some s) (full : s.capacity ≤ s.lru.length)
      (busy : c.victim s.lru = none) :
      Acquired c sql (.ok c.leases.next)
        (buildLease { c with
          state := some { s with misses := s.misses + 1 }
          entries := c.entries.alloc { sql, leased := true, orphaned := true } } c.entries.next).2

theorem victim_some (hi : Inv capacity c) {s : CacheState} (hs : c.state = some s)
    {v : Node EntryRef} (hv : c.victim s.lru = some v) :
    v ∈ s.lru ∧ (c.entry v.val).leased = false ∧ ∀ u ∈ s.lru, (c.entry u.val).leased = false →
      u = v ∨ c.handedOut.idxOf u.val < c.handedOut.idxOf v.val := by
  have hvalues : (s.lru.map Node.val).Pairwise fun a b =>
    c.handedOut.idxOf a < c.handedOut.idxOf b := (hi.cache s hs).recent
  have hrecent := List.pairwise_map.mp hvalues
  obtain ⟨hmem, hfree, hlast⟩ := find_last hrecent hv
  exact ⟨hmem, by simpa using hfree, fun u hu hfree => hlast u hu (by simpa using hfree)⟩

theorem victim_none {lru : List (Node EntryRef)} (h : c.victim lru = none) : ∀ n ∈ lru,
    (c.entry n.val).leased = true := by
  intro n hn
  have hno := List.find?_eq_none.mp h n (List.mem_reverse.mpr hn)
  simpa using hno

theorem hit_acquired {s : CacheState} (hs : c.state = some s) {n : Node EntryRef} (hn : n ∈ s.lru)
    (sqlite : SqliteAnswers) :
      Acquired c (c.entry n.val).sql (c.hit s n.id n.val (c.entry n.val).sql sqlite).1
      (c.hit s n.id n.val (c.entry n.val).sql sqlite).2 := by
  have hremove : CacheState.remove { s with lru := Node.splice s.lru n.id }
    (c.entry n.val).sql n.id =
      s.remove (c.entry n.val).sql n.id := by
    unfold CacheState.remove
    rw [Node.erase_splice]
  unfold hit
  dsimp only
  split
  · exact .refused _
  next hleased =>
  have hfree : (c.entry n.val).leased = false := by simpa using hleased
  rw [hremove]
  split
  · exact .dropped s n _ _ hs hn rfl hfree
  next hreset =>
  split
  · exact .dropped s n _ _ hs hn rfl hfree
  next hcleared =>
  have hclean : ((c.entry n.val).stmt.reset none).clearBindings none = {} := rfl
  rw [hreset, hcleared, hclean]
  exact .reused s n hs hn rfl hfree

theorem miss_acquired (hi : Inv capacity c) {s : CacheState} (hs : c.state = some s) {sql : Bytes}
    (habsent : s.bySql.lookup sql = none) (sqlite : SqliteAnswers) :
    Acquired c sql (c.miss s sql sqlite).1 (c.miss s sql sqlite).2 := by
  have hsound := hi.cache s hs
  unfold miss
  dsimp only
  split
  · exact .unprepared s _ hs
  split
  · next hroom => exact .added s { s with misses := s.misses + 1 } hs hroom habsent (.inl rfl)
  next hfull =>
  have hfull : s.capacity ≤ s.lru.length := Nat.le_of_not_lt hfull
  split
  · next hv => exact .orphaned s hs hfull hv
  · next v hv =>
    obtain ⟨hmem, -, -⟩ := victim_some hi hs hv
    refine .added s { s.remove (c.entry v.val).sql v.id with
      misses := s.misses + 1, evictions := s.evictions + 1 } hs ?_
      (hsound.absent_remove habsent hmem) (.inr ⟨hfull, v, hv, rfl⟩)
    have hlt := Node.length_erase_lt hmem
    have hsize := hsound.size
    rw [← hsound.bounded] at hsize
    exact Nat.lt_of_lt_of_le hlt hsize

/-- Acquisition follows an iterator of the table only where it leads to a listed entry. -/
theorem acquire_acquired (hi : Inv capacity c) (sql : Bytes) (sqlite : SqliteAnswers) :
    ∃ out d, c.acquire sql sqlite = some (out, d) ∧ Acquired c sql out d := by
  unfold acquire
  cases hs : c.state with
  | none => exact ⟨_, _, rfl, .refused _⟩
  | some s =>
    dsimp only
    split
    · exact ⟨_, _, rfl, .refused _⟩
    cases hlookup : s.bySql.lookup sql with
    | none => exact ⟨_, _, rfl, miss_acquired hi hs hlookup sqlite⟩
    | some it =>
      obtain ⟨e, hderef, hmem, hsql⟩ := (hi.cache s hs).indexed.deref hlookup
      dsimp only
      rw [hderef, ← hsql]
      exact ⟨_, _, rfl, hit_acquired hs hmem sqlite⟩

theorem acquired_of_acquire {sql : Bytes} {sqlite : SqliteAnswers} {out : Result LeaseRef}
    (hi : Inv capacity c) (h : c.acquire sql sqlite = some (out, d)) : Acquired c sql out d := by
  obtain ⟨out', d', heq, hacq⟩ := acquire_acquired hi sql sqlite
  rw [heq] at h
  obtain ⟨rfl, rfl⟩ := Prod.mk.inj (Option.some.inj h)
  exact hacq

theorem lease_buildLease (c : StatementCache) (e : EntryRef) (h : LeaseRef) :
    (c.buildLease e).2.lease h = if h = c.leases.next then ⟨some e, false⟩ else c.lease h := by
  simp only [buildLease, lease, Heap.get, Heap.alloc, Function.update_apply]

theorem entry_setEntry (c : StatementCache) (e k : EntryRef) (entry : CacheEntry) :
    (c.setEntry e entry).entry k = if k = e then entry else c.entry k := Heap.get_set _ _ _ _

/-- No lease is added. -/
theorem Inv.keep (hi : Inv capacity c)
    (hcache : ∀ s, d.state = some s → s.Sound capacity d.entries d.nodes d.handedOut)
    (hleases : ∀ h e, (d.lease h).entry = some e → d.lease h = c.lease h)
    (hnext : c.leases.next ≤ d.leases.next) (hentries : c.entries.next ≤ d.entries.next)
    (hflag : ∀ h e, (d.lease h).entry = some e → (c.entry e).leased = true →
    (d.entry e).leased = true) : Inv capacity d where
  cache := hcache
  opened h e he := by
    have hsame := hleases h e he
    rw [hsame] at he ⊢
    exact hi.opened h e he
  leased h e he := by
    obtain ⟨hh, hlt, hleased⟩ := hi.leased h e (hleases h e he ▸ he)
    exact ⟨Nat.lt_of_lt_of_le hh hnext, Nat.lt_of_lt_of_le hlt hentries, hflag h e he hleased⟩
  exclusive h k e hh hk := hi.exclusive h k e (hleases h e hh ▸ hh) (hleases k e hk ▸ hk)

/-- An entry that no lease holds is handed out. -/
theorem Inv.handOut (hi : Inv capacity c) {e : EntryRef} (hleases : d.leases = c.leases)
    (hentries : c.entries.next ≤ d.entries.next) (he : e < d.entries.next)
      (hleased : (d.entry e).leased = true)
    (hother : ∀ k < c.entries.next, k ≠ e → d.entry k = c.entry k) (hfree : ∀ h,
      (c.lease h).entry ≠ some e)
    (hcache : ∀ s, d.state = some s → s.Sound capacity d.entries d.nodes (e :: d.handedOut)) :
    Inv capacity (d.buildLease e).2 := by
  have hold : ∀ h, d.lease h = c.lease h := fun h => by
    unfold lease
    rw [hleases]
  have hlease : ∀ {h k}, ((d.buildLease e).2.lease h).entry = some k →
      h = d.leases.next ∧ k = e ∨ h ≠ d.leases.next ∧ (c.lease h).entry = some k := by
    intro h k hk
    rw [lease_buildLease] at hk
    split at hk
    · next hh => exact .inl ⟨hh, (Option.some.inj hk).symm⟩
    · next hh => exact .inr ⟨hh, hold h ▸ hk⟩
  refine ⟨hcache, fun h k hk => ?_, fun h k hk => ?_, fun h h' k hh hh' => ?_⟩
  · rw [lease_buildLease] at hk ⊢
    split at hk
    · next hh => rw [if_pos hh]
    · next hh =>
      rw [if_neg hh, hold h]
      exact hi.opened h k (hold h ▸ hk)
  · rcases hlease hk with ⟨rfl, rfl⟩ | ⟨-, hk⟩
    · exact ⟨Nat.lt_succ_self _, he, hleased⟩
    · obtain ⟨hlt, hknown, hflag⟩ := hi.leased h k hk
      have hne : k ≠ e := fun heq => hfree h (heq ▸ hk)
      refine ⟨?_, Nat.lt_of_lt_of_le hknown hentries, ?_⟩
      · rw [← hleases] at hlt
        exact Nat.lt_succ_of_lt hlt
      · change (d.entry k).leased = true
        rw [hother k hknown hne]
        exact hflag
  · rcases hlease hh with ⟨he, hk⟩ | ⟨-, hk⟩ <;> rcases hlease hh' with ⟨he', hk'⟩ | ⟨-, hk'⟩
    · rw [he, he']
    · exact absurd (hk ▸ hk') (hfree h')
    · exact absurd (hk' ▸ hk) (hfree h)
    · exact hi.exclusive h h' k hk hk'

theorem Inv.unheld (hi : Inv capacity c) {e : EntryRef} (h : (c.entry e).leased = false)
    (k : LeaseRef) :
    (c.lease k).entry ≠ some e := by
  intro hk
  have hleased := (hi.leased k e hk).2.2
  rw [h] at hleased
  cases hleased

theorem Inv.unheld_next (hi : Inv capacity c) (k : LeaseRef) :
    (c.lease k).entry ≠ some c.entries.next :=
  fun hk => Nat.lt_irrefl _ (hi.leased k _ hk).2.1

/-- The state a new entry enters has room for it. -/
theorem sound_made (hi : Inv capacity c) {s t : CacheState} (hs : c.state = some s)
    (h : t = { s with misses := s.misses + 1 } ∨
      s.capacity ≤ s.lru.length ∧ ∃ v, c.victim s.lru = some v ∧
        t = { s.remove (c.entry v.val).sql v.id with
          misses := s.misses + 1, evictions := s.evictions + 1 }) :
    t.Sound capacity c.entries c.nodes c.handedOut := by
  rcases h with rfl | ⟨-, v, hv, rfl⟩
  · exact (hi.cache s hs).counters
  · exact ((hi.cache s hs).remove (victim_some hi hs hv).1).counters

theorem inv_acquired {sql : Bytes} {out : Result LeaseRef} (hi : Inv capacity c)
    (h : Acquired c sql out d) :
    Inv capacity d := by
  cases h with
  | refused => exact hi
  | unprepared s _ hs =>
    refine hi.keep (fun t ht => ?_) (fun _ _ _ => rfl) (le_refl _) (le_refl _) fun _ _ _ => id
    obtain rfl := Option.some.inj ht
    exact (hi.cache s hs).counters
  | dropped s n stmt _ hs hn =>
    refine hi.keep (fun t ht => ?_) (fun _ _ _ => rfl) (le_refl _) (le_refl _) fun h e _ hflag => ?_
    · obtain rfl := Option.some.inj ht
      exact ((hi.cache s hs).remove hn).set (by rfl)
    · change ((c.setEntry n.val _).entry e).leased = true
      rw [entry_setEntry]
      split
      · next he => rw [he] at hflag; exact hflag
      · exact hflag
  | reused s n hs hn _ hfree =>
    have hsound := hi.cache s hs
    refine hi.handOut (by rfl) (le_refl _) (hsound.known n hn) ?_
      (fun k _ hne => ?_) (hi.unheld hfree) fun t ht => ?_
    · exact congrArg CacheEntry.leased (Heap.get_set_self _ _ _)
    · exact Heap.get_set_ne _ hne _
    · obtain rfl := Option.some.inj ht
      exact ((hsound.splice hn).counters).set (by rfl)
  | added s t hs hroom habsent hmade =>
    have hsound := sound_made hi hs hmade
    rw [hsound.bounded] at hroom
    refine hi.handOut (by rfl) (Nat.le_succ _) (Nat.lt_succ_self _) ?_
      (fun k hk _ => ?_) hi.unheld_next fun u hu => ?_
    · exact congrArg CacheEntry.leased (Heap.get_alloc_next _ _)
    · exact Heap.get_alloc_of_lt _ hk _
    · obtain rfl := Option.some.inj hu
      exact hsound.pushFront { sql, leased := true } hroom habsent
  | orphaned s hs =>
    have hsound := hi.cache s hs
    refine hi.handOut (by rfl) (Nat.le_succ _) (Nat.lt_succ_self _) ?_
      (fun k hk _ => ?_) hi.unheld_next fun u hu => ?_
    · exact congrArg CacheEntry.leased (Heap.get_alloc_next _ _)
    · exact Heap.get_alloc_of_lt _ hk _
    · obtain rfl := Option.some.inj hu
      exact ((hsound.log hsound.next_notMem).alloc _).counters

/-- The outcomes of `release` for a lease that holds `e`. -/
inductive Released (c : StatementCache) (h : LeaseRef) (e : EntryRef) : StatementCache → Prop
  | apart : Released c h e (c.surrender h)
  | returned (stmt : Statement) :
      Released c h e ((c.surrender h).setEntry e { c.entry e with stmt, leased := false })
  | stray (stmt : Statement) : Released c h e ((c.surrender h).setEntry e { c.entry e with stmt })
  | dropped (s : CacheState) (n : Node EntryRef) (stmt : Statement) (state : c.state = some s)
      (listed : n ∈ s.lru)
      (same : n.val = e) : Released c h e
        { (c.surrender h).setEntry e { c.entry e with stmt } with
          state := some (s.remove (c.entry e).sql n.id) }

theorem release_spent {h : LeaseRef} (hspent : (c.lease h).entry = none) (sqlite : SqliteAnswers) :
    c.release h sqlite = some c ∨ c.release h sqlite = some (c.surrender h) := by
  unfold release
  dsimp only
  split
  · exact .inl rfl
  · rw [hspent]
    exact .inr rfl

theorem release_released (hi : Inv capacity c) {h : LeaseRef} {e : EntryRef}
    (he : (c.lease h).entry = some e) (sqlite : SqliteAnswers) : ∃ d, c.release h sqlite = some d ∧
    Released c h e d := by
  unfold release
  dsimp only
  rw [hi.opened h e he, if_neg Bool.false_ne_true, he]
  cases hs : (c.surrender h).state with
  | none => exact ⟨_, rfl, .apart⟩
  | some s =>
    have hindexed := (hi.cache s hs).indexed
    dsimp only
    split
    · exact ⟨_, rfl, .apart⟩
    split
    · cases hlookup : s.bySql.lookup ((c.surrender h).entry e).sql with
      | none => exact ⟨_, rfl, .stray _⟩
      | some it =>
        obtain ⟨k, hderef, hmem, -⟩ := hindexed.deref hlookup
        dsimp only
        rw [hderef]
        refine ⟨_, rfl, ?_⟩
        dsimp only
        split
        · next hk => exact .dropped s ⟨it, k⟩ _ hs hmem (by simpa using hk)
        · exact .stray _
    · exact ⟨_, rfl, .returned _⟩

theorem lease_surrender (c : StatementCache) (h k : LeaseRef) :
    (c.surrender h).lease k = if k = h then ⟨none, true⟩ else c.lease k := Heap.get_set _ _ _ _

theorem kept_surrender {h k : LeaseRef} {e : EntryRef}
    (hk : ((c.surrender h).lease k).entry = some e) :
    k ≠ h ∧ (c.surrender h).lease k = c.lease k := by
  rw [lease_surrender] at hk ⊢
  split at hk
  · cases hk
  · next hne => exact ⟨hne, if_neg hne⟩

theorem inv_surrender (hi : Inv capacity c) (h : LeaseRef) : Inv capacity (c.surrender h) :=
  hi.keep hi.cache (fun _ _ hk => (kept_surrender hk).2) (le_refl _) (le_refl _) fun _ _ _ => id

/-- An entry is written, and keeps its text; it may be freed when no lease holds it. -/
theorem inv_setEntry (hi : Inv capacity c) {e : EntryRef} {entry : CacheEntry}
    (hsql : entry.sql = (c.entry e).sql)
    (hflag : ∀ h, (c.lease h).entry = some e → (c.entry e).leased = true → entry.leased = true) :
    Inv capacity (c.setEntry e entry) := by
  refine hi.keep (fun s hs => (hi.cache s hs).set hsql) (fun _ _ _ => rfl) (le_refl _) (le_refl _)
    fun h k hk hleased => ?_
  rw [entry_setEntry]
  split
  · next he =>
    subst he
    exact hflag h hk hleased
  · exact hleased

theorem inv_released (hi : Inv capacity c) {h : LeaseRef} {e : EntryRef}
    (he : (c.lease h).entry = some e) (hrel : Released c h e d) : Inv capacity d := by
  have hs := inv_surrender hi h
  cases hrel with
  | apart => exact hs
  | returned stmt =>
    refine inv_setEntry hs (by rfl) fun k hk => ?_
    obtain ⟨hne, hsame⟩ := kept_surrender hk
    exact absurd (hi.exclusive k h e (hsame ▸ hk) he) hne
  | stray stmt => exact inv_setEntry hs (by rfl) fun _ _ => id
  | dropped s n stmt hstate hn hval =>
    have hset : Inv capacity ((c.surrender h).setEntry e { c.entry e with stmt }) :=
      inv_setEntry hs (by rfl) fun _ _ => id
    refine hset.keep (fun t ht => ?_) (fun _ _ _ => rfl) (le_refl _) (le_refl _) fun _ _ _ => id
    obtain rfl := Option.some.inj ht
    subst hval
    exact ((hi.cache s hstate).remove hn).set (by rfl)

theorem orphanLeased_next (lru : List (Node EntryRef)) (entries : Heap CacheEntry) :
    (orphanLeased lru entries).next = entries.next := by
  induction lru generalizing entries with
  | nil => rfl
  | cons n rest ih =>
    unfold orphanLeased
    rw [ih]
    split <;> rfl

/-- The loop of `clear` changes no flag but `orphaned`. -/
theorem orphanLeased_leased (lru : List (Node EntryRef)) (entries : Heap CacheEntry)
    (e : EntryRef) :
    ((orphanLeased lru entries).get e).leased = (entries.get e).leased := by
  induction lru generalizing entries with
  | nil => rfl
  | cons n rest ih =>
    unfold orphanLeased
    rw [ih]
    split
    · rw [Heap.get_set]
      split
      · next he => rw [he]
      · rfl
    · rfl

theorem inv_clear (hi : Inv capacity c) : Inv capacity c.clear := by
  unfold clear
  split
  · exact hi
  next s hs =>
  refine hi.keep (fun t ht => ?_) (fun _ _ _ => rfl) (le_refl _)
    (Nat.le_of_eq (orphanLeased_next _ _).symm)
    fun h e _ hleased => (orphanLeased_leased _ _ _).trans hleased
  obtain rfl := Option.some.inj ht
  exact ⟨(hi.cache s hs).bounded, .empty _, fun _ hn => absurd hn List.not_mem_nil,
    fun _ hn => absurd hn List.not_mem_nil, Nat.zero_le _, fun _ hn => absurd hn List.not_mem_nil,
    List.Pairwise.nil⟩

theorem inv_use (hi : Inv capacity c) (h : LeaseRef) (stmt : Statement) :
    Inv capacity (c.use h stmt) := by
  unfold use
  split
  · exact hi
  · exact inv_setEntry hi (by rfl) fun _ _ => id

theorem inv_destroy (hi : Inv capacity c) : Inv capacity c.destroy :=
  hi.keep (fun _ hs => (by cases hs)) (fun _ _ _ => rfl) (le_refl _) (le_refl _) fun _ _ _ => id

theorem inv_release (hi : Inv capacity c) (h : LeaseRef) (sqlite : SqliteAnswers) :
    ∃ d, c.release h sqlite = some d ∧ Inv capacity d := by
  cases he : (c.lease h).entry with
  | none =>
    rcases release_spent he sqlite with hd | hd
    · exact ⟨c, hd, hi⟩
    · exact ⟨_, hd, inv_surrender hi h⟩
  | some e =>
    obtain ⟨d, hd, hrel⟩ := release_released hi he sqlite
    exact ⟨d, hd, inv_released hi he hrel⟩

/-- No operation follows an iterator whose node is gone. -/
theorem inv_apply (hi : Inv capacity c) (op : Op) : ∃ d, c.apply op = some d ∧ Inv capacity d := by
  cases op with
  | acquire sql sqlite =>
    obtain ⟨out, d, hd, hacq⟩ := acquire_acquired hi sql sqlite
    refine ⟨d, ?_, inv_acquired hi hacq⟩
    change (c.acquire sql sqlite).map Prod.snd = some d
    rw [hd]
    rfl
  | release h sqlite => exact inv_release hi h sqlite
  | use h stmt => exact ⟨_, rfl, inv_use hi h stmt⟩
  | clear => exact ⟨_, rfl, inv_clear hi⟩
  | destroy => exact ⟨_, rfl, inv_destroy hi⟩

theorem inv_step (hi : Inv capacity c) (h : Step c d) : Inv capacity d := by
  obtain ⟨op, -, happly⟩ := h
  obtain ⟨d', hd', hinv⟩ := inv_apply hi op
  rw [happly] at hd'
  obtain rfl := Option.some.inj hd'
  exact hinv

theorem inv_reachable (hr : Reachable capacity c) : Inv capacity c := by
  obtain ⟨c₀, hopen, hrun⟩ := hr
  refine run_invariant (I := Inv capacity) (fun _ _ hi hs => inv_step hi hs) hrun ?_
  unfold «open» at hopen
  split at hopen
  · cases hopen
  obtain rfl := Except.ok.inj hopen
  refine ⟨fun s hs => ?_, fun _ _ he => (by cases he), fun _ _ he => (by cases he),
    fun _ _ _ he => (by cases he)⟩
  obtain rfl := Option.some.inj hs
  exact ⟨rfl, .empty _, fun _ hn => absurd hn List.not_mem_nil,
    fun _ hn => absurd hn List.not_mem_nil, Nat.zero_le _, fun _ hn => absurd hn List.not_mem_nil,
    List.Pairwise.nil⟩

/-- Later states list known entries only where they were listed before. -/
def Ages (c d : StatementCache) : Prop :=
  c.entries.next ≤ d.entries.next ∧ ∀ e, d.Listed e → c.Listed e ∨ c.entries.next ≤ e

theorem Ages.refl (c : StatementCache) : Ages c c := ⟨le_refl _, fun _ => .inl⟩

theorem Ages.trans {f : StatementCache} (h : Ages c d) (k : Ages d f) : Ages c f := by
  refine ⟨h.1.trans k.1, fun e he => ?_⟩
  rcases k.2 e he with he | hle
  · exact h.2 e he
  · exact .inr (h.1.trans hle)

/-- The nodes are among those of the state before. -/
theorem Ages.of_sublist {s t : CacheState} (hs : c.state = some s) (ht : d.state = some t)
    (hnext : c.entries.next ≤ d.entries.next) (hsub : ∀ n ∈ t.lru, n ∈ s.lru) : Ages c d := by
  refine ⟨hnext, fun e he => .inl ?_⟩
  obtain ⟨t', ht', n, hn, hval⟩ := he
  rw [ht] at ht'
  obtain rfl := Option.some.inj ht'
  exact ⟨s, hs, n, hsub n hn, hval⟩

theorem Ages.of_state (hstate : d.state = c.state) (hnext : c.entries.next ≤ d.entries.next) :
    Ages c d := by
  refine ⟨hnext, fun e he => .inl ?_⟩
  obtain ⟨s, hs, hlist⟩ := he
  exact ⟨s, hstate ▸ hs, hlist⟩

theorem mem_made {s t : CacheState} (h : t = { s with misses := s.misses + 1 } ∨
      s.capacity ≤ s.lru.length ∧ ∃ v, c.victim s.lru = some v ∧
        t = { s.remove (c.entry v.val).sql v.id with
          misses := s.misses + 1, evictions := s.evictions + 1 })
    {n : Node EntryRef} (hn : n ∈ t.lru) : n ∈ s.lru := by
  rcases h with rfl | ⟨-, v, -, rfl⟩
  · exact hn
  · exact (Node.mem_erase.mp hn).1

theorem ages_acquired {sql : Bytes} {out : Result LeaseRef} (h : Acquired c sql out d) :
    Ages c d := by
  cases h with
  | refused => exact .refl c
  | unprepared s _ hs => exact .of_sublist hs rfl (le_refl _) fun _ => id
  | dropped s n stmt _ hs => exact .of_sublist hs rfl (le_refl _) fun m hm =>
      (Node.mem_erase.mp hm).1
  | reused s n hs => exact .of_sublist hs rfl (le_refl _) fun m hm => Node.mem_splice.mp hm
  | orphaned s hs => exact .of_sublist hs rfl (Nat.le_succ _) fun _ => id
  | added s t hs _ _ hmade =>
    refine ⟨Nat.le_succ _, fun e he => ?_⟩
    obtain ⟨u, hu, n, hn, rfl⟩ := he
    obtain rfl := Option.some.inj hu
    rcases List.mem_cons.mp hn with rfl | hn
    · exact .inr (le_refl _)
    · exact .inl ⟨s, hs, n, mem_made hmade hn, rfl⟩

theorem ages_released {h : LeaseRef} {e : EntryRef} (hrel : Released c h e d) : Ages c d := by
  cases hrel with
  | apart => exact .of_state rfl (le_refl _)
  | returned stmt => exact .of_state rfl (le_refl _)
  | stray stmt => exact .of_state rfl (le_refl _)
  | dropped s n stmt hs => exact .of_sublist hs rfl (le_refl _) fun m hm => (Node.mem_erase.mp hm).1

theorem listed_clear (c : StatementCache) (e : EntryRef) : ¬c.clear.Listed e := by
  rintro ⟨s, hs, n, hn, -⟩
  unfold clear at hs
  split at hs
  · next hnone =>
    rw [hnone] at hs
    cases hs
  · obtain rfl := Option.some.inj hs
    exact absurd hn List.not_mem_nil

theorem ages_clear (c : StatementCache) : Ages c c.clear := by
  refine ⟨?_, fun e he => absurd he (listed_clear c e)⟩
  unfold clear
  split
  · exact le_refl _
  · exact Nat.le_of_eq (orphanLeased_next _ _).symm

theorem ages_step (hi : Inv capacity c) (h : Step c d) : Ages c d := by
  obtain ⟨op, -, happly⟩ := h
  cases op with
  | acquire sql sqlite =>
    obtain ⟨⟨out, d'⟩, hout, rfl⟩ := Option.map_eq_some_iff.mp happly
    exact ages_acquired (acquired_of_acquire hi hout)
  | release h sqlite =>
    have happly : c.release h sqlite = some d := happly
    cases he : (c.lease h).entry with
    | none =>
      rcases release_spent he sqlite with hd | hd <;> rw [hd] at happly <;> obtain rfl :=
        Option.some.inj happly
      · exact .refl c
      · exact .of_state rfl (le_refl _)
    | some e =>
      obtain ⟨d', hd, hrel⟩ := release_released hi he sqlite
      rw [hd] at happly
      obtain rfl := Option.some.inj happly
      exact ages_released hrel
  | use h stmt =>
    obtain rfl := Option.some.inj happly
    unfold use
    split
    · exact .refl c
    · exact .of_state rfl (le_refl _)
  | clear =>
    obtain rfl := Option.some.inj happly
    exact ages_clear c
  | destroy =>
    obtain rfl := Option.some.inj happly
    exact ⟨le_refl _, fun e he => (by obtain ⟨s, hs, -⟩ := he; cases hs)⟩

theorem ages_run (hi : Inv capacity c) (hrun : ReflTransGen Step c d) : Ages c d :=
  run_relates (I := Inv capacity) (Q := Ages) (fun _ _ hi hs => inv_step hi hs) Ages.refl
    (fun _ _ _ => .trans)
    (fun _ _ hi hs => ages_step hi hs) hrun hi

/-- A granted lease and what was evicted for it. -/
structure HandsOut (capacity : Nat) (c : StatementCache) (sql : Bytes) (h : LeaseRef)
    (d : StatementCache) : Prop where
  lease : ∃ e, d.lease h = ⟨some e, false⟩ ∧ (d.entry e).sql = sql ∧ (d.entry e).stmt = {} ∧
    d.handedOut = e :: c.handedOut ∧ ∀ k, (c.lease k).entry ≠ some e
  evicts : ∀ v, c.Listed v → ¬d.Listed v → (c.entry v).leased = false ∧
    (∀ s, c.state = some s → s.lru.length = capacity) ∧
    ∀ u, c.Listed u → (c.entry u).leased = false → u = v ∨ c.handedOut.idxOf u < c.handedOut.idxOf v
  crowded : ∀ s, c.state = some s → s.lru.length = capacity →
    (∀ n ∈ s.lru, (c.entry n.val).leased = true) →
    ∀ e, (d.lease h).entry = some e → ¬d.Listed e

theorem listed_of_mem {s : CacheState} (hs : c.state = some s) {n : Node EntryRef}
    (hn : n ∈ s.lru) : c.Listed n.val :=
  ⟨s, hs, n, hn, rfl⟩

theorem mem_of_listed {s : CacheState} (hs : c.state = some s) {e : EntryRef} (he : c.Listed e) :
    ∃ n ∈ s.lru, n.val = e := by
  obtain ⟨t, ht, hn⟩ := he
  rw [hs] at ht
  obtain rfl := Option.some.inj ht
  exact hn

/-- Without its node `n`, the list keeps every other entry. -/
theorem listed_erase (hi : Inv capacity c) {s t : CacheState} (hs : c.state = some s)
    (ht : d.state = some t) {n : Node EntryRef} (hn : n ∈ s.lru)
    (hsub : ∀ m ∈ Node.erase s.lru n.id, m ∈ t.lru) {e : EntryRef} (he : c.Listed e)
    (hne : e ≠ n.val) :
    d.Listed e := by
  obtain ⟨m, hm, rfl⟩ := mem_of_listed hs he
  refine ⟨t, ht, m, hsub m (Node.mem_erase.mpr ⟨hm, fun hid => hne ?_⟩), rfl⟩
  rw [Node.eq_of_id (hi.cache s hs).indexed.ids hm hn hid]

theorem listed_acquired {sql : Bytes} {out : Result LeaseRef} (hi : Inv capacity c)
    (h : Acquired c sql out d) {e : EntryRef} (he : c.Listed e)
    (hleased : (c.entry e).leased = true) : d.Listed e := by
  have hne : ∀ {n : Node EntryRef}, (c.entry n.val).leased = false → e ≠ n.val := by
    rintro n hfree rfl
    rw [hleased] at hfree
    cases hfree
  cases h with
  | refused => exact he
  | unprepared s _ hs =>
    obtain ⟨n, hn, rfl⟩ := mem_of_listed hs he
    exact ⟨_, rfl, n, hn, rfl⟩
  | dropped s n stmt _ hs hn _ hfree => exact listed_erase hi hs rfl hn (fun _ => id) he (hne hfree)
  | reused s n hs hn =>
    obtain ⟨m, hm, rfl⟩ := mem_of_listed hs he
    exact ⟨_, rfl, m, Node.mem_splice.mpr hm, rfl⟩
  | orphaned s hs =>
    obtain ⟨n, hn, rfl⟩ := mem_of_listed hs he
    exact ⟨_, rfl, n, hn, rfl⟩
  | added s t hs _ _ hmade =>
    rcases hmade with rfl | ⟨-, v, hv, rfl⟩
    · obtain ⟨n, hn, rfl⟩ := mem_of_listed hs he
      exact ⟨_, rfl, n, List.mem_cons_of_mem _ hn, rfl⟩
    · obtain ⟨hmem, hfree, -⟩ := victim_some hi hs hv
      exact listed_erase hi hs rfl hmem (fun m hm => List.mem_cons_of_mem _ hm) he (hne hfree)

theorem lease_next (c : StatementCache) (e : EntryRef) :
    (c.buildLease e).2.lease c.leases.next = ⟨some e, false⟩ := by
  rw [lease_buildLease, if_pos rfl]

theorem handsOut_acquired {sql : Bytes} {h : LeaseRef} (hi : Inv capacity c)
    (hacq : Acquired c sql (.ok h) d) :
    HandsOut capacity c sql h d := by
  cases hacq with
  | reused s n hs hn hsql hfree =>
    have hentry :
      ((c.setEntry n.val { c.entry n.val with stmt := {}, leased := true }).entry n.val) =
        { c.entry n.val with stmt := {}, leased := true } := Heap.get_set_self _ _ _
    refine ⟨⟨n.val, lease_next _ _, ?_, ?_, rfl, hi.unheld hfree⟩, fun v hv hgone => ?_,
      fun t ht _ hall e _ => ?_⟩
    · exact (congrArg CacheEntry.sql hentry).trans hsql
    · exact congrArg CacheEntry.stmt hentry
    · obtain ⟨m, hm, rfl⟩ := mem_of_listed hs hv
      exact absurd ⟨_, rfl, m, Node.mem_splice.mpr hm, rfl⟩ hgone
    · rw [hs] at ht
      obtain rfl := Option.some.inj ht
      have hleased := hall n hn
      rw [hfree] at hleased
      cases hleased
  | orphaned s hs =>
    have hentry := Heap.get_alloc_next c.entries { sql, leased := true, orphaned := true }
    refine ⟨⟨c.entries.next, lease_next _ _, congrArg CacheEntry.sql hentry,
      congrArg CacheEntry.stmt hentry, rfl, hi.unheld_next⟩, fun v hv hgone => ?_,
      fun t ht _ hall e he hlisted => ?_⟩
    · obtain ⟨m, hm, rfl⟩ := mem_of_listed hs hv
      exact absurd ⟨_, rfl, m, hm, rfl⟩ hgone
    · rw [lease_next] at he
      obtain rfl := Option.some.inj he
      obtain ⟨m, hm, hval⟩ := mem_of_listed rfl hlisted
      have hknown := (hi.cache s hs).known m hm
      rw [hval] at hknown
      exact Nat.lt_irrefl _ hknown
  | added s t hs hroom habsent hmade =>
    have hentry := Heap.get_alloc_next c.entries { sql, leased := true }
    refine ⟨⟨c.entries.next, lease_next _ _, congrArg CacheEntry.sql hentry,
      congrArg CacheEntry.stmt hentry, rfl, hi.unheld_next⟩, fun v hv hgone => ?_,
      fun u hu hfull hall e _ _ => ?_⟩
    · rcases hmade with rfl | ⟨hfull, w, hw, rfl⟩
      · obtain ⟨m, hm, rfl⟩ := mem_of_listed hs hv
        exact absurd ⟨_, rfl, m, List.mem_cons_of_mem _ hm, rfl⟩ hgone
      · obtain ⟨hmem, hfree, hlast⟩ := victim_some hi hs hw
        have hvw : v = w.val := by
          by_contra hne
          exact hgone (listed_erase hi hs rfl hmem (fun m hm => List.mem_cons_of_mem _ hm) hv hne)
        subst hvw
        refine ⟨hfree, fun u hu => ?_, fun u hu hufree => ?_⟩
        · rw [hs] at hu
          obtain rfl := Option.some.inj hu
          have hsound := hi.cache s hs
          rw [hsound.bounded] at hfull
          exact Nat.le_antisymm hsound.size hfull
        · obtain ⟨m, hm, rfl⟩ := mem_of_listed hs hu
          rcases hlast m hm hufree with rfl | hlt
          · exact .inl rfl
          · exact .inr hlt
    · rw [hs] at hu
      obtain rfl := Option.some.inj hu
      rcases hmade with rfl | ⟨-, w, hw, rfl⟩
      · rw [(hi.cache s hs).bounded] at hroom
        exact absurd hroom (Nat.not_lt_of_le (Nat.le_of_eq hfull.symm))
      · obtain ⟨hmem, hfree, -⟩ := victim_some hi hs hw
        have hleased := hall w hmem
        rw [hfree] at hleased
        cases hleased

/-- What a release leaves alone: every other entry, and the whole cache if the entry is not listed.
-/
structure Parts (c : StatementCache) (e : EntryRef) (d : StatementCache) : Prop where
  entries : ∀ k, k ≠ e → d.entry k = c.entry k ∧ (d.Listed k ↔ c.Listed k)
  cache : ¬c.Listed e → d.state = c.state

theorem parts_of_state {e : EntryRef} (hstate : d.state = c.state)
    (hentry : ∀ k, k ≠ e → d.entry k = c.entry k) : Parts c e d := by
  refine ⟨fun k hk => ⟨hentry k hk, ?_⟩, fun _ => hstate⟩
  unfold Listed
  rw [hstate]

theorem parts_released (hi : Inv capacity c) {h : LeaseRef} {e : EntryRef}
    (hrel : Released c h e d) : Parts c e d := by
  cases hrel with
  | apart => exact parts_of_state rfl fun _ _ => rfl
  | returned stmt => exact parts_of_state rfl fun k hk => Heap.get_set_ne _ hk _
  | stray stmt => exact parts_of_state rfl fun k hk => Heap.get_set_ne _ hk _
  | dropped s n stmt hs hn hval =>
    refine ⟨fun k hk => ⟨Heap.get_set_ne _ hk _, fun hlist => ?_, fun hlist => ?_⟩, fun hnot => ?_⟩
    · obtain ⟨m, hm, rfl⟩ := mem_of_listed rfl hlist
      exact listed_of_mem hs (Node.mem_erase.mp hm).1
    · exact listed_erase hi hs rfl hn (fun _ => id) hlist (by rw [hval]; exact hk)
    · exact absurd (hval ▸ listed_of_mem hs hn) hnot

/-- The cache in every reachable state. -/
theorem statement_cache_sound (hr : Reachable capacity c) :
    (∀ s, c.state = some s →
      (∀ sql it, s.bySql.lookup sql = some it ↔ ∃ n ∈ s.lru, n.id = it ∧
        (c.entry n.val).sql = sql) ∧
      s.bySql.keys.length = s.lru.length ∧ (s.lru.map fun n => (c.entry n.val).sql).Nodup ∧
        s.lru.length ≤ capacity) ∧
    (∀ h k e, (c.lease h).entry = some e → (c.lease k).entry = some e → h = k) ∧
    (∀ op, ∃ d, c.apply op = some d) ∧
    (∀ sql sqlite out d, c.acquire sql sqlite = some (out, d) →
      (∀ e, c.Listed e → (c.entry e).leased = true → d.Listed e) ∧ ∀ h, out = .ok h →
        HandsOut capacity c sql h d) ∧
    (∀ h e, (c.lease h).entry = some e → (c.entry e).leased = true ∧
      (∀ d, ReflTransGen Step c.clear d → ¬d.Listed e) ∧
      (¬c.Listed e → ∀ d, ReflTransGen Step c d → ¬d.Listed e) ∧
      ∀ sqlite d, c.release h sqlite = some d → Parts c e d) := by
  have hi := inv_reachable hr
  refine ⟨fun s hs => ?_, hi.exclusive, fun op => ?_, fun sql sqlite out d hacquire => ?_,
    fun h e he => ?_⟩
  · have hsound := hi.cache s hs
    exact ⟨hsound.indexed.names, hsound.indexed.length_eq, hsound.indexed.keys_nodup, hsound.size⟩
  · obtain ⟨d, hd, -⟩ := inv_apply hi op
    exact ⟨d, hd⟩
  · have hacq := acquired_of_acquire hi hacquire
    refine ⟨fun e he hleased => listed_acquired hi hacq he hleased, fun h hout => ?_⟩
    subst hout
    exact handsOut_acquired hi hacq
  · obtain ⟨-, hknown, hleased⟩ := hi.leased h e he
    have hout : ∀ {b : StatementCache}, Inv capacity b → e < b.entries.next → ¬b.Listed e →
      ∀ d, ReflTransGen Step b d →
        ¬d.Listed e := by
      intro b hb hlt hnot d hrun hlist
      rcases (ages_run hb hrun).2 e hlist with hold | hnew
      · exact hnot hold
      · exact Nat.not_lt_of_le hnew hlt
    refine ⟨hleased, hout (inv_clear hi) (Nat.lt_of_lt_of_le hknown (ages_clear c).1)
      (listed_clear c e), hout hi hknown, fun sqlite d hd => ?_⟩
    obtain ⟨d', hd', hrel⟩ := release_released hi he sqlite
    rw [hd'] at hd
    obtain rfl := Option.some.inj hd
    exact parts_released hi hrel

def applyAll : StatementCache → List Op → StatementCache
  | c, [] => c
  | c, op :: rest => applyAll ((c.apply op).getD c) rest

def AllEnabled : StatementCache → List Op → Prop
  | _, [] => True
  | c, op :: rest => c.Enabled op ∧ AllEnabled ((c.apply op).getD c) rest

theorem reachable_applyAll (ops : List Op) (hr : Reachable capacity c) (hen : AllEnabled c ops) :
    Reachable capacity (c.applyAll ops) := by
  induction ops generalizing c with
  | nil => exact hr
  | cons op rest ih =>
    obtain ⟨d, hd, -⟩ := inv_apply (inv_reachable hr) op
    have hnext : (c.apply op).getD c = d := by rw [hd]; rfl
    obtain ⟨hop, hrest⟩ := hen
    refine ih ?_ hrest
    rw [hnext]
    obtain ⟨c₀, hopen, hrun⟩ := hr
    exact ⟨c₀, hopen, hrun.tail ⟨op, hop, hd⟩⟩

/-- Two statements are leased from a cache for one. -/
def sampleLeased : StatementCache :=
  applyAll { state := some { capacity := 1 } } [.acquire [0x61] {}, .acquire [0x62] {}]

/-- The second lease never enters the cache. -/
theorem statement_cache_sound_leased : (sampleLeased.lease 1).entry = some 1 ∧
    ∀ d, ReflTransGen Step sampleLeased d → ¬d.Listed 1 := by
  have hr : Reachable 1 sampleLeased :=
    reachable_applyAll _ ⟨_, rfl, .refl⟩ ⟨trivial, trivial, trivial⟩
  have hlease : (sampleLeased.lease 1).entry = some 1 := by decide +kernel
  refine ⟨hlease, ((statement_cache_sound hr).2.2.2.2 1 1 hlease).2.2.1 ?_⟩
  rintro ⟨s, hs, n, hn, hval⟩
  have hlru : sampleLeased.state.map CacheState.lru = some [⟨0, 0⟩] := by decide +kernel
  rw [hs] at hlru
  rw [Option.some.inj hlru] at hn
  obtain rfl := List.mem_singleton.mp hn
  cases hval

end StatementCache

end Orangutan.Storage
