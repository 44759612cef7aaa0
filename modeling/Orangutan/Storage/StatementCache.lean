import Orangutan.Core.Error
import Orangutan.Lib.Heap
import Orangutan.Lib.IndexedLists

/-!
# Prepared-statement cache

Entries live on a heap, reached from the recency list and from leases. The table maps an SQL text to
an iterator into the list; following an iterator whose node is gone has no defined result, which is
the value `none` of the operations below. What SQLite answers is an input of each operation.
-/

namespace Orangutan.Storage

set_option autoImplicit false

open Orangutan.Core Orangutan.Lib

/-- What a statement carries from one use to the next. -/
structure Statement where
  hasCurrentRow : Bool := false
  /-- Stepped and not reset since. -/
  busy : Bool := false
  bindings : List (Nat × Bytes) := []
  deriving DecidableEq

namespace Statement

def reset (failure : Option Error) (stmt : Statement) : Statement :=
  { stmt with hasCurrentRow := false, busy := if failure.isSome then stmt.busy else false }

def clearBindings (failure : Option Error) (stmt : Statement) : Statement :=
  { stmt with bindings := if failure.isSome then stmt.bindings else [] }

end Statement

abbrev EntryRef := Nat

abbrev LeaseRef := Nat

structure CacheEntry where
  sql : Bytes
  stmt : Statement := {}
  leased : Bool := false
  orphaned : Bool := false

structure Lease where
  entry : Option EntryRef
  released : Bool := false

/-- `StatementCache::State`. -/
structure CacheState where
  capacity : Nat
  lru : List (Node EntryRef) := []
  bySql : Table Bytes Nat := ∅
  hits : Nat := 0
  misses : Nat := 0
  evictions : Nat := 0

/-- A cache with all entries and leases it has made. -/
structure StatementCache where
  /-- Nothing once the cache is destroyed; leases hold a weak pointer to it. -/
  state : Option CacheState
  entries : Heap CacheEntry := ⟨fun _ => ⟨[], {}, false, false⟩, 0⟩
  leases : Heap Lease := ⟨fun _ => ⟨none, true⟩, 0⟩
  /-- The next name of a list node. -/
  nodes : Nat := 0
  /-- The entries handed out, the latest first; no function reads it. -/
  handedOut : List EntryRef := []

/-- What SQLite answers within one operation. -/
structure SqliteAnswers where
  prepare : Option Error := none
  reset : Option Error := none
  clearBindings : Option Error := none

namespace CacheState

/-- `by_sql.erase` and `lru.erase` of one entry. -/
def remove (s : CacheState) (sql : Bytes) (it : Nat) : CacheState :=
  { s with lru := Node.erase s.lru it, bySql := AList.erase sql s.bySql }

/-- `push_front`, then `emplace`, which keeps an existing key. -/
def pushFront (s : CacheState) (sql : Bytes) (node : Node EntryRef) : CacheState :=
  { s with
    lru := node :: s.lru
    bySql := if (s.bySql.lookup sql).isSome then s.bySql else AList.insert sql node.id s.bySql }

end CacheState

namespace StatementCache

def «open» (capacity : Nat) : Result StatementCache :=
  if capacity == 0 then .error
    (.invalidArgument "statement cache capacity must be greater than zero")
  else .ok { state := some { capacity } }

def entry (c : StatementCache) (e : EntryRef) : CacheEntry := c.entries.get e

def lease (c : StatementCache) (h : LeaseRef) : Lease := c.leases.get h

def setEntry (c : StatementCache) (e : EntryRef) (entry : CacheEntry) : StatementCache :=
  { c with entries := c.entries.set e entry }

/-- The node of the last unleased entry, `find_last_if`. -/
def victim (c : StatementCache) (lru : List (Node EntryRef)) : Option (Node EntryRef) :=
  lru.reverse.find? fun n => !(c.entry n.val).leased

def buildLease (c : StatementCache) (e : EntryRef) : LeaseRef × StatementCache :=
  (c.leases.next,
    { c with leases := c.leases.alloc ⟨some e, false⟩, handedOut := e :: c.handedOut })

/-- A cached statement is found behind the iterator. -/
def hit (c : StatementCache) (s : CacheState) (it : Nat) (e : EntryRef) (sql : Bytes)
    (sqlite : SqliteAnswers) :
    Result LeaseRef × StatementCache :=
  let entry := c.entry e
  if entry.leased then
    (.error ((Error.of .conflict "statement is already leased").note "sql" sql), c)
  else
    -- the node keeps its name, so the iterator written back to the table is the one read from it
    let s := { s with lru := Node.splice s.lru it }
    let reset := entry.stmt.reset sqlite.reset
    match sqlite.reset with
    | some error =>
      (.error (error.note "sql" sql),
        { c.setEntry e { entry with stmt := reset } with state := some (s.remove sql it) })
    | none =>
      let cleared := reset.clearBindings sqlite.clearBindings
      match sqlite.clearBindings with
      | some error =>
        (.error (error.note "sql" sql),
          { c.setEntry e { entry with stmt := cleared } with state := some (s.remove sql it) })
      | none =>
        let s := { s with hits := s.hits + 1 }
        let out := buildLease { c.setEntry e { entry with stmt := cleared, leased := true } with
          state := some s } e
        (.ok out.1, out.2)

/-- A new statement is prepared. -/
def miss (c : StatementCache) (s : CacheState) (sql : Bytes) (sqlite : SqliteAnswers) :
    Result LeaseRef × StatementCache :=
  let s := { s with misses := s.misses + 1 }
  match sqlite.prepare with
  | some error => (.error error, { c with state := some s })
  | none =>
    let e := c.entries.next
    let entry : CacheEntry := { sql, leased := true }
    let node : Node EntryRef := ⟨c.nodes, e⟩
    if s.lru.length < s.capacity then
      let out := buildLease
        { c with
          state := some (s.pushFront sql node), entries := c.entries.alloc entry,
          nodes := c.nodes + 1 } e
      (.ok out.1, out.2)
    else
      match c.victim s.lru with
      | none =>
        let out := buildLease { c with
          state := some s, entries := c.entries.alloc { entry with orphaned := true } } e
        (.ok out.1, out.2)
      | some v =>
        let s := s.remove (c.entry v.val).sql v.id
        let s := { s with evictions := s.evictions + 1 }
        let out := buildLease
          { c with
            state := some (s.pushFront sql node), entries := c.entries.alloc entry,
            nodes := c.nodes + 1 } e
        (.ok out.1, out.2)

def acquire (c : StatementCache) (sql : Bytes) (sqlite : SqliteAnswers) :
    Option (Result LeaseRef × StatementCache) :=
  match c.state with
  | none => some (.error (.of .conflict "statement cache is not open"), c)
  | some s =>
    if sql.isEmpty then some (.error (.invalidArgument "sql must not be empty"), c)
    else
      match s.bySql.lookup sql with
      | some it => (Node.deref s.lru it).map fun e => c.hit s it e sql sqlite
      | none => some (c.miss s sql sqlite)

/-- The entries of a list that are leased lose their place in the cache. -/
def orphanLeased : List (Node EntryRef) → Heap CacheEntry → Heap CacheEntry
  | [], entries => entries
  | n :: rest, entries =>
    let entry := entries.get n.val
    orphanLeased rest (if entry.leased then entries.set n.val { entry with orphaned := true }
      else entries)

def clear (c : StatementCache) : StatementCache :=
  match c.state with
  | none => c
  | some s =>
    { c with
      state := some { s with lru := [], bySql := ∅, hits := 0, misses := 0, evictions := 0 }
      entries := orphanLeased s.lru c.entries }

/-- The lease gives its entry up. -/
def surrender (c : StatementCache) (h : LeaseRef) : StatementCache :=
    { c with leases := c.leases.set h ⟨none, true⟩ }

/-- `CachedStatement::release`, which the destructor and the move assignment also call. -/
def release (c : StatementCache) (h : LeaseRef) (sqlite : SqliteAnswers) : Option StatementCache :=
  let lease := c.lease h
  if lease.released then some c
  else
    let c := c.surrender h
    match lease.entry, c.state with
    | some e, some s =>
      let entry := c.entry e
      if entry.orphaned then some c
      else
        -- both calls are made before their answers are looked at
        let stmt := (entry.stmt.reset sqlite.reset).clearBindings sqlite.clearBindings
        if sqlite.reset.isSome || sqlite.clearBindings.isSome then
          let c := c.setEntry e { entry with stmt }
          match s.bySql.lookup entry.sql with
          | none => some c
          | some it =>
            (Node.deref s.lru it).map fun found => if found == e
              then { c with state := some (s.remove entry.sql it) } else c
        else some (c.setEntry e { entry with stmt, leased := false })
    | _, _ => some c

/-- The holder of a lease steps and binds its statement. -/
def use (c : StatementCache) (h : LeaseRef) (stmt : Statement) : StatementCache :=
  match (c.lease h).entry with
  | none => c
  | some e => c.setEntry e { c.entry e with stmt }

def destroy (c : StatementCache) : StatementCache := { c with state := none }

inductive Op
  | acquire (sql : Bytes) (sqlite : SqliteAnswers)
  | release (h : LeaseRef) (sqlite : SqliteAnswers)
  | use (h : LeaseRef) (stmt : Statement)
  | clear
  | destroy

def Enabled (c : StatementCache) : Op → Prop
  | .release h _ => h < c.leases.next
  | .use h _ => h < c.leases.next ∧ (c.lease h).released = false
  | _ => True

def apply (c : StatementCache) : Op → Option StatementCache
  | .acquire sql sqlite => (c.acquire sql sqlite).map Prod.snd
  | .release h sqlite => c.release h sqlite
  | .use h stmt => some (c.use h stmt)
  | .clear => some c.clear
  | .destroy => some c.destroy

def Step (c d : StatementCache) : Prop := ∃ op, c.Enabled op ∧ c.apply op = some d

/-- The states of an opened cache. -/
def Reachable (capacity : Nat) (c : StatementCache) : Prop :=
  ∃ c₀, «open» capacity = .ok c₀ ∧ Relation.ReflTransGen Step c₀ c

end StatementCache

end Orangutan.Storage
