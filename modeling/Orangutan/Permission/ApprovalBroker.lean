import Orangutan.Lib.Table
import Orangutan.Permission.Approval

/-!
# The approval broker

The broker counts how often an approval may still be used. It keeps one grant for each
triple of tool, identity and input hash, and few for each identity.
-/

namespace Orangutan.Permission

set_option autoImplicit false

open Orangutan.Core

structure ApprovalGrant where
  toolName : Bytes
  input : Bytes
  identity : Bytes
  ttl : Int := 3600
  replayMax : Nat := 8

structure Key where
  toolName : Bytes
  identity : Bytes
  inputHash : Bytes
  deriving DecidableEq

structure Entry where
  expiresAt : Time
  remainingUses : Nat := 0
  sequence : Nat := 0
  deriving DecidableEq

structure ApprovalBroker where
  authority : ApprovalAuthority
  grants : Lib.Table Key Entry := ∅
  nextSequence : Nat := 0

namespace ApprovalBroker

def maxGrantsPerIdentity : Nat := 64

def denied (reason : String) : Error :=
  (Error.permissionDenied "approval broker rejected check").note "reason" (text reason)

/-- The grants that `reap_expired` leaves. -/
def unexpired (now : Time) (grants : Lib.Table Key Entry) : Lib.Table Key Entry :=
  grants.keep fun _ e => !decide (e.expiresAt ≤ now)

def reapExpired (now : Time) (b : ApprovalBroker) : Nat × ApprovalBroker :=
  let grants := unexpired now b.grants
  (b.grants.entries.length - grants.entries.length, { b with grants })

/-- The grants of the identity that the new one would join. -/
def others (identity : Bytes) (newKey k : Key) : Bool :=
  !(decide (k.identity ≠ identity) || decide (k = newKey))

/-- The grant with the lower sequence number. -/
def older (it : Sigma fun _ : Key => Entry) : Option (Sigma fun _ : Key => Entry) → Sigma fun _ :
    Key => Entry
  | none => it
  | some oldest => if it.2.sequence < oldest.2.sequence then it else oldest

/-- The loop of `enforce_identity_ceiling`: how many there are, and the oldest. -/
def countIdentity (identity : Bytes) (newKey : Key) :
    List (Sigma fun _ : Key => Entry) → Nat × Option (Sigma fun _ : Key => Entry) →
      Nat × Option (Sigma fun _ : Key => Entry)
  | [], found => found
  | it :: rest, (live, oldest) =>
    if others identity newKey it.1 then
      countIdentity identity newKey rest (live + 1, some (older it oldest))
    else countIdentity identity newKey rest (live, oldest)

def enforceIdentityCeiling (identity : Bytes) (newKey : Key) (grants : Lib.Table Key Entry) :
    Lib.Table Key Entry :=
  match countIdentity identity newKey grants.entries (0, none) with
  | (live, some oldest) => if maxGrantsPerIdentity ≤ live then grants.erase oldest.1 else grants
  | (_, none) => grants

/-- The triple that a grant or a check is about. -/
def key (a : ApprovalAuthority) (toolName input identity : Bytes) : Key :=
  { toolName, identity, inputHash := a.inputHash input }

def approve (grant : ApprovalGrant) (nonce : Bytes) (now : Time) (b : ApprovalBroker) :
    ApprovalToken × ApprovalBroker :=
  let token := b.authority.issue
    { toolName := grant.toolName, input := grant.input, identity := grant.identity,
      ttl := grant.ttl } nonce now
  let key : Key :=
    { toolName := token.toolName, identity := token.identity, inputHash := token.inputHash }
  let b := (b.reapExpired now).2
  let grants := enforceIdentityCeiling token.identity key b.grants
  let entry : Entry :=
    { expiresAt := token.expiresAt, remainingUses := grant.replayMax, sequence := b.nextSequence }
  (token, { b with grants := grants.insert key entry, nextSequence := b.nextSequence + 1 })

def check (token : ApprovalToken) (toolName input identity : Bytes) (now : Time)
    (b : ApprovalBroker) :
    Result Unit × ApprovalBroker :=
  match b.authority.verify token toolName input identity now with
  | .error e => (.error e, b)
  | .ok () =>
    let probe := key b.authority toolName input identity
    match b.grants.lookup probe with
    | none => (.error (denied "no_grant"), b)
    | some e =>
      if e.remainingUses = 0 then (.error (denied "replay_exhausted"), b)
      else (.ok (),
        { b with grants := b.grants.insert probe { e with remainingUses := e.remainingUses - 1 } })

end ApprovalBroker

/-- The calls of a broker. -/
inductive BrokerOp
  | approve (grant : ApprovalGrant) (nonce : Bytes) (now : Time)
  | check (token : ApprovalToken) (toolName input identity : Bytes) (now : Time)
  | reap (now : Time)

namespace ApprovalBroker

def apply (b : ApprovalBroker) : BrokerOp → ApprovalBroker
  | .approve grant nonce now => (b.approve grant nonce now).2
  | .check token toolName input identity now => (b.check token toolName input identity now).2
  | .reap now => (b.reapExpired now).2

def run (a : ApprovalAuthority) (ops : List BrokerOp) : ApprovalBroker :=
    ops.foldl apply { authority := a }

/-- The call is an approval of the triple. -/
def approves (a : ApprovalAuthority) (k : Key) : BrokerOp → Bool
  | .approve grant _ _ => key a grant.toolName grant.input grant.identity = k
  | _ => false

/-- The call is a check of the triple that succeeds. -/
def spends (b : ApprovalBroker) (k : Key) : BrokerOp → Bool
  | .check token toolName input identity now =>
    decide (key b.authority toolName input identity = k) &&
      (b.check token toolName input identity now).1.isOk
  | _ => false

/-- How often the triple is checked with success along a run. -/
def spent (k : Key) : ApprovalBroker → List BrokerOp → Nat
  | _, [] => 0
  | b, op :: ops => (if b.spends k op then 1 else 0) + spent k (b.apply op) ops

end ApprovalBroker

namespace ApprovalBroker

variable {a : ApprovalAuthority} {b : ApprovalBroker} {k newKey : Key} {e : Entry}
  {identity : Bytes}
  {grants : Lib.Table Key Entry}

theorem others_iff : others identity newKey k = true ↔ k.identity = identity ∧ k ≠ newKey := by
  simp [others]

theorem older_spec (it : Sigma fun _ : Key => Entry)
    (oldest : Option (Sigma fun _ : Key => Entry)) :
    (older it oldest = it ∨ oldest = some (older it oldest)) ∧
      (older it oldest).2.sequence ≤ it.2.sequence ∧
    ∀ z, oldest = some z → (older it oldest).2.sequence ≤ z.2.sequence := by
  cases oldest with
  | none => exact ⟨.inl rfl, Nat.le_refl _, fun z hz => (by cases hz)⟩
  | some old =>
    rw [older]
    split
    · next hlt =>
      refine ⟨.inl rfl, Nat.le_refl _, fun z hz => ?_⟩
      cases hz
      exact Nat.le_of_lt hlt
    · next hle =>
      refine ⟨.inr rfl, Nat.le_of_not_lt hle, fun z hz => ?_⟩
      cases hz
      exact Nat.le_refl _

/-- The loop counts what it looks for and keeps one of the oldest of them. -/
theorem countIdentity_spec (l : List (Sigma fun _ : Key => Entry)) (live : Nat)
    (oldest : Option (Sigma fun _ : Key => Entry)) :
    (countIdentity identity newKey l (live, oldest)).1 = live + l.countP
      (fun it => others identity newKey it.1) ∧
    ((countIdentity identity newKey l (live, oldest)).2 = none →
      oldest = none ∧ l.countP (fun it => others identity newKey it.1) = 0) ∧
    ∀ old, (countIdentity identity newKey l (live, oldest)).2 = some old →
      (oldest = some old ∨ (old ∈ l ∧ others identity newKey old.1 = true)) ∧
      (∀ z, oldest = some z → old.2.sequence ≤ z.2.sequence) ∧
      ∀ it ∈ l, others identity newKey it.1 = true → old.2.sequence ≤ it.2.sequence := by
  induction l generalizing live oldest with
  | nil =>
    refine ⟨rfl, fun h => ⟨h, rfl⟩,
      fun old h => ⟨.inl h, fun z hz => ?_, fun it hit => (by cases hit)⟩⟩
    have hq : some old = some z := h.symm.trans hz
    cases hq
    exact Nat.le_refl _
  | cons it rest ih =>
    rw [countIdentity]
    split
    · next hother =>
      obtain ⟨hfrom, hxit, hxold⟩ := older_spec it oldest
      generalize older it oldest = x at hfrom hxit hxold ⊢
      obtain ⟨hcount, hnone, hsome⟩ := ih (live + 1) (some x)
      refine ⟨?_, fun h => absurd (hnone h).1 (by simp), fun old hold => ?_⟩
      · rw [hcount, List.countP_cons, if_pos hother]
        omega
      · obtain ⟨hwhere, hfirst, hrest⟩ := hsome old hold
        have hle := hfirst x rfl
        refine ⟨?_, fun z hz => Nat.le_trans hle (hxold z hz), fun y hy hyother => ?_⟩
        · rcases hwhere with hwhere | ⟨hmem, hold⟩
          · cases hwhere
            rcases hfrom with rfl | hfrom
            · exact .inr ⟨List.mem_cons_self, hother⟩
            · exact .inl hfrom
          · exact .inr ⟨List.mem_cons_of_mem _ hmem, hold⟩
        · rcases List.mem_cons.mp hy with rfl | hy
          · exact Nat.le_trans hle hxit
          · exact hrest y hy hyother
    · next hother =>
      obtain ⟨hcount, hnone, hsome⟩ := ih live oldest
      refine ⟨?_, fun h => ?_, fun old hold => ?_⟩
      · rw [hcount, List.countP_cons, if_neg hother]
        omega
      · rw [List.countP_cons, if_neg hother]
        exact hnone h
      · obtain ⟨hwhere, hfirst, hrest⟩ := hsome old hold
        refine ⟨hwhere.imp_right fun h => ⟨List.mem_cons_of_mem _ h.1, h.2⟩, hfirst,
          fun y hy hyother => ?_⟩
        rcases List.mem_cons.mp hy with rfl | hy
        · exact absurd hyother hother
        · exact hrest y hy hyother

/-- How many grants of an identity are stored beside the new one. -/
def beside (identity : Bytes) (newKey : Key) (grants : Lib.Table Key Entry) : Nat :=
  grants.keys.countP (others identity newKey)

/-- The ceiling removes nothing, or the oldest of the grants it counts. -/
theorem ceiling_cases (identity : Bytes) (newKey : Key) (grants : Lib.Table Key Entry) :
    (beside identity newKey grants < maxGrantsPerIdentity ∧
      enforceIdentityCeiling identity newKey grants = grants) ∨
    ∃ k e, grants.lookup k = some e ∧ others identity newKey k = true ∧
      maxGrantsPerIdentity ≤ beside identity newKey grants ∧
      (∀ k' e', grants.lookup k' = some e' → others identity newKey k' = true →
        e.sequence ≤ e'.sequence) ∧
      enforceIdentityCeiling identity newKey grants = grants.erase k := by
  obtain ⟨hcount, hnone, hsome⟩ := @countIdentity_spec newKey identity grants.entries 0 none
  have hbeside : beside identity newKey grants = grants.entries.countP fun it =>
      others identity newKey it.1 :=
    List.countP_map
  unfold enforceIdentityCeiling
  generalize hfound : countIdentity identity newKey grants.entries (0, none) =
    found at hcount hnone hsome ⊢
  obtain ⟨live, oldest⟩ := found
  cases oldest with
  | none =>
    have hzero := (hnone rfl).2
    exact .inl ⟨by rw [hbeside, hzero]; decide, rfl⟩
  | some old =>
    dsimp only at hcount hsome ⊢
    obtain ⟨hwhere, -, hleast⟩ := hsome old rfl
    rw [Nat.zero_add, ← hbeside] at hcount
    obtain ⟨hmem, hother⟩ := hwhere.resolve_left (by simp)
    split
    · next hfull =>
      refine .inr ⟨old.1, old.2, Lib.Table.lookup_iff.mpr hmem, hother, hcount ▸ hfull,
        fun k' e' h' hother' => ?_, rfl⟩
      exact hleast ⟨k', e'⟩ (Lib.Table.lookup_iff.mp h') hother'
    · next hfull => exact .inl ⟨by omega, rfl⟩

theorem ceiling_lookup (identity : Bytes) (newKey k : Key) (grants : Lib.Table Key Entry) :
    (enforceIdentityCeiling identity newKey grants).lookup k = grants.lookup k ∨
    ∃ e, grants.lookup k = some e ∧
      (enforceIdentityCeiling identity newKey grants).lookup k = none ∧
      others identity newKey k = true ∧ maxGrantsPerIdentity ≤ beside identity newKey grants ∧
      ∀ k' e', grants.lookup k' = some e' → others identity newKey k' = true →
        e.sequence ≤ e'.sequence := by
  rcases ceiling_cases identity newKey grants with ⟨-, hsame⟩ | ⟨old, e, hold, hother, hfull,
    hleast, herase⟩
  · rw [hsame]
    exact .inl rfl
  · rw [herase]
    by_cases hq : k = old
    · subst hq
      exact .inr ⟨e, hold, AList.lookup_erase _ _, hother, hfull, hleast⟩
    · exact .inl (AList.lookup_erase_ne hq)

@[simp] theorem apply_authority (b : ApprovalBroker) (op : BrokerOp) :
    (b.apply op).authority = b.authority := by
  cases op with
  | approve grant nonce now => rfl
  | check token toolName input identity now =>
    simp only [apply, check]
    repeat' split
    all_goals rfl
  | reap now => rfl

/-- The grant is dropped because its time is over. -/
def Reaped (op : BrokerOp) (e : Entry) : Prop :=
  ∃ now, e.expiresAt ≤ now ∧ (op = .reap now ∨ ∃ grant nonce, op = .approve grant nonce now)

/-- The grant makes room for another of its identity, and none of those is older. -/
def Evicted (b : ApprovalBroker) (op : BrokerOp) (k : Key) (e : Entry) : Prop :=
  ∃ grant nonce now, op = .approve grant nonce now ∧
    others grant.identity (key b.authority grant.toolName grant.input grant.identity) k = true ∧
    maxGrantsPerIdentity ≤ beside grant.identity
      (key b.authority grant.toolName grant.input grant.identity)
      (unexpired now b.grants) ∧
    ∀ k' e', (unexpired now b.grants).lookup k' = some e' →
      others grant.identity (key b.authority grant.toolName grant.input grant.identity) k' = true →
      e.sequence ≤ e'.sequence

theorem lookup_unexpired (now : Time) (grants : Lib.Table Key Entry) (k : Key) :
    (unexpired now grants).lookup k = (grants.lookup k).filter fun e =>
      !decide (e.expiresAt ≤ now) :=
  Lib.Table.lookup_keep _ _ _

theorem approve_lookup (grant : ApprovalGrant) (nonce : Bytes) (now : Time) :
    (b.approve grant nonce now).2.grants.lookup
      (key b.authority grant.toolName grant.input grant.identity) =
      some ⟨addSeconds now grant.ttl, grant.replayMax, b.nextSequence⟩ :=
  AList.lookup_insert _

theorem approve_lookup_ne (grant : ApprovalGrant) (nonce : Bytes) (now : Time)
    (hk : key b.authority grant.toolName grant.input grant.identity ≠ k) :
    (b.approve grant nonce now).2.grants.lookup k =
      (enforceIdentityCeiling grant.identity
        (key b.authority grant.toolName grant.input grant.identity)
        (unexpired now b.grants)).lookup k :=
  AList.lookup_insert_ne hk.symm

/-- The shape of a successful check. -/
theorem check_ok {token : ApprovalToken} {toolName input identity : Bytes} {now : Time} :
    (b.check token toolName input identity now).1 = .ok () ↔
      b.authority.verify token toolName input identity now = .ok () ∧
      ∃ e, b.grants.lookup (key b.authority toolName input identity) = some e ∧
        e.remainingUses ≠ 0 := by
  unfold check
  split
  · next e he => simp [he]
  · next he =>
    dsimp only
    split
    · next hnone => simp [he, hnone]
    · next e hsome =>
      split
      · next hzero => simp [he, hsome, hzero]
      · next hpos => simp [he, hsome, hpos]

theorem check_error {token : ApprovalToken} {toolName input identity : Bytes} {now : Time}
    (h : (b.check token toolName input identity now).1 ≠ .ok ()) :
    (b.check token toolName input identity now).2 = b := by
  unfold check at h ⊢
  split at h
  · rfl
  · dsimp only at h ⊢
    split at h
    · rfl
    · split at h
      · next hzero => rw [if_pos hzero]
      · exact absurd rfl h

theorem check_grants {token : ApprovalToken} {toolName input identity : Bytes} {now : Time}
    (h : b.authority.verify token toolName input identity now = .ok ())
    (he : b.grants.lookup (key b.authority toolName input identity) = some e)
      (hpos : e.remainingUses ≠ 0) :
    (b.check token toolName input identity now).2.grants =
      b.grants.insert (key b.authority toolName input identity) { e with remainingUses :=
        e.remainingUses - 1 } := by
  unfold check
  rw [h]
  dsimp only
  rw [he]
  dsimp only
  rw [if_neg hpos]

theorem approves_iff {op : BrokerOp} : approves a k op = true ↔
    ∃ grant nonce now, op = .approve grant nonce now ∧
      key a grant.toolName grant.input grant.identity = k := by
  cases op with
  | approve grant nonce now => simp [approves]
  | check => simp [approves]
  | reap => simp [approves]

theorem spends_iff {op : BrokerOp} : b.spends k op = true ↔
    ∃ token toolName input identity now, op = .check token toolName input identity now ∧
      key b.authority toolName input identity = k ∧ (b.check token toolName input identity now).1 =
        .ok () := by
  have hok : ∀ r : Result Unit, r.isOk = true ↔ r = .ok () := by
    intro r
    cases r <;> simp [Except.isOk, Except.toBool]
  cases op with
  | approve => simp [spends]
  | check token toolName input identity now =>
    simp only [spends, Bool.and_eq_true, decide_eq_true_eq, hok]
    constructor
    · rintro ⟨hk, h⟩
      exact ⟨token, toolName, input, identity, now, rfl, hk, h⟩
    · rintro ⟨_, _, _, _, _, hop, hk, h⟩
      cases hop
      exact ⟨hk, h⟩
  | reap => simp [spends]

/-- All that a call can do to the grant of a triple that it does not approve. -/
theorem apply_cases {op : BrokerOp} (hop : approves b.authority k op = false) :
    ((b.apply op).grants.lookup k = b.grants.lookup k ∧ b.spends k op = false) ∨
    (∃ e, b.grants.lookup k = some e ∧ b.spends k op = true ∧ 0 < e.remainingUses ∧
      (b.apply op).grants.lookup k = some { e with remainingUses := e.remainingUses - 1 }) ∨
    (∃ e, b.grants.lookup k = some e ∧ (b.apply op).grants.lookup k = none ∧ b.spends k op = false ∧
      (Reaped op e ∨ b.Evicted op k e)) := by
  cases op with
  | approve grant nonce now =>
    have hk : key b.authority grant.toolName grant.input grant.identity ≠ k := by
      intro hk
      have := approves_iff.mpr ⟨grant, nonce, now, rfl, hk⟩
      rw [hop] at this
      cases this
    have hlookup := b.approve_lookup_ne grant nonce now hk
    have hunexpired := lookup_unexpired now b.grants k
    show ((b.approve grant nonce now).2.grants.lookup k = _ ∧ _) ∨ _ ∨
      ∃ e, _ ∧ (b.approve grant nonce now).2.grants.lookup k = none ∧ _
    rcases ceiling_lookup grant.identity
      (key b.authority grant.toolName grant.input grant.identity) k
      (unexpired now b.grants) with hsame | ⟨e, he, hnone, hother, hfull, hleast⟩
    · rw [hlookup, hsame, hunexpired]
      cases he : b.grants.lookup k with
      | none => exact .inl ⟨rfl, rfl⟩
      | some e =>
        by_cases hexpired : e.expiresAt ≤ now
        · refine .inr (.inr ⟨e, rfl, ?_, rfl, .inl ⟨now, hexpired, .inr ⟨grant, nonce, rfl⟩⟩⟩)
          simp [hexpired]
        · exact .inl ⟨by simp [hexpired], rfl⟩
    · rw [hunexpired, Option.filter_eq_some_iff] at he
      exact .inr (.inr ⟨e, he.1, hlookup.trans hnone, rfl,
        .inr ⟨grant, nonce, now, rfl, hother, hfull, hleast⟩⟩)
  | check token toolName input identity now =>
    by_cases hok : (b.check token toolName input identity now).1 = .ok ()
    · obtain ⟨hverify, e, he, hpos⟩ := check_ok.mp hok
      have hgrants := check_grants hverify he hpos
      by_cases hk : key b.authority toolName input identity = k
      · subst hk
        refine .inr (.inl ⟨e, he, spends_iff.mpr ⟨token, toolName, input, identity, now, rfl, rfl,
          hok⟩, Nat.pos_of_ne_zero hpos, ?_⟩)
        show (b.check token toolName input identity now).2.grants.lookup _ = _
        rw [hgrants]
        exact AList.lookup_insert _
      · refine .inl ⟨?_, by simp [spends, hk]⟩
        show (b.check token toolName input identity now).2.grants.lookup _ = _
        rw [hgrants]
        exact AList.lookup_insert_ne (Ne.symm hk)
    · refine .inl ⟨?_, ?_⟩
      · show (b.check token toolName input identity now).2.grants.lookup _ = _
        rw [check_error hok]
      · rw [Bool.eq_false_iff, ne_eq, spends_iff]
        rintro ⟨_, _, _, _, _, hop, -, h⟩
        cases hop
        exact hok h
  | reap now =>
    have hunexpired := lookup_unexpired now b.grants k
    show ((unexpired now b.grants).lookup k = _ ∧ _) ∨ _ ∨ ∃ e, _ ∧
      (unexpired now b.grants).lookup k = none ∧ _
    rw [hunexpired]
    cases he : b.grants.lookup k with
    | none => exact .inl ⟨rfl, rfl⟩
    | some e =>
      by_cases hexpired : e.expiresAt ≤ now
      · exact .inr (.inr ⟨e, rfl, by simp [hexpired], rfl, .inl ⟨now, hexpired, .inl rfl⟩⟩)
      · exact .inl ⟨by simp [hexpired], rfl⟩

/-- The uses that are left of a triple. -/
def remaining (b : ApprovalBroker) (k : Key) : Nat :=
    ((b.grants.lookup k).map (·.remainingUses)).getD 0

theorem remaining_step {op : BrokerOp} (hop : approves b.authority k op = false) :
    (if b.spends k op then 1 else 0) + (b.apply op).remaining k ≤ b.remaining k := by
  rcases apply_cases hop with ⟨hsame, hspends⟩ | ⟨e, he, hspends, hpos, hafter⟩ | ⟨e, he, hafter,
    hspends, -⟩
  · rw [remaining, hsame, hspends]
    simp [remaining]
  · rw [remaining, remaining, hafter, he, hspends]
    simp
    omega
  · rw [remaining, remaining, hafter, he, hspends]
    simp

theorem spent_le {ops : List BrokerOp} (hops : ∀ op ∈ ops, approves b.authority k op = false) :
    spent k b ops ≤ b.remaining k := by
  induction ops generalizing b with
  | nil => exact Nat.zero_le _
  | cons op ops ih =>
    have hstep := remaining_step (hops op List.mem_cons_self)
    have hrest : spent k (b.apply op) ops ≤ (b.apply op).remaining k := by
      refine ih fun o ho => ?_
      rw [apply_authority]
      exact hops o (List.mem_cons_of_mem _ ho)
    rw [spent]
    omega

/-- The grants of an identity. -/
def stored (identity : Bytes) (grants : Lib.Table Key Entry) : Nat :=
  grants.keys.countP fun k => k.identity = identity

theorem beside_le_stored (identity : Bytes) (newKey : Key) (grants : Lib.Table Key Entry) :
    beside identity newKey grants ≤ stored identity grants :=
  List.countP_mono_left fun _ _ hk => decide_eq_true (others_iff.mp hk).1

theorem stored_unexpired_le (identity : Bytes) (now : Time) (grants : Lib.Table Key Entry) :
    stored identity (unexpired now grants) ≤ stored identity grants :=
  (Lib.Table.keys_keep_sublist _ _).countP_le

theorem stored_ceiling_le (other : Bytes) (identity : Bytes) (newKey : Key)
    (grants : Lib.Table Key Entry) :
    stored other (enforceIdentityCeiling identity newKey grants) ≤ stored other grants := by
  rcases ceiling_cases identity newKey grants with ⟨-, hsame⟩ | ⟨old, e, -, -, -, -, herase⟩
  · rw [hsame]
  · rw [herase, stored, AList.keys_erase]
    exact List.erase_sublist.countP_le

/-- There is room below the ceiling afterwards. -/
theorem beside_ceiling_lt (identity : Bytes) (newKey : Key) (grants : Lib.Table Key Entry)
    (h : stored identity grants ≤ maxGrantsPerIdentity) :
    beside identity newKey (enforceIdentityCeiling identity newKey grants) <
      maxGrantsPerIdentity := by
  rcases ceiling_cases identity newKey grants with ⟨hroom, hsame⟩ | ⟨old, e, hold, hother, hfull,
    -, herase⟩
  · rw [hsame]
    exact hroom
  · have hle := beside_le_stored identity newKey grants
    have hmem := Lib.Table.mem_keys_of_lookup hold
    rw [herase, beside, AList.keys_erase, List.countP_erase, if_pos ⟨hmem, hother⟩]
    show beside identity newKey grants - 1 < _
    have hpos : 0 < maxGrantsPerIdentity := by decide
    omega

theorem stored_insert (identity : Bytes) (k : Key) (e : Entry) (grants : Lib.Table Key Entry) :
    stored identity (grants.insert k e) = (if k.identity = identity then 1 else 0) +
      beside identity k grants := by
  rw [stored, AList.keys_insert, List.countP_cons, (AList.keys_nodup grants).erase_eq_filter,
    List.countP_filter, beside, Nat.add_comm]
  simp only [decide_eq_true_eq]
  congr 1
  refine List.countP_congr fun j _ => ?_
  simp [others_iff]

theorem stored_step (h : ∀ identity, stored identity b.grants ≤ maxGrantsPerIdentity)
    (op : BrokerOp) (identity : Bytes) :
    stored identity (b.apply op).grants ≤ maxGrantsPerIdentity := by
  cases op with
  | approve grant nonce now =>
    have hunexpired := Nat.le_trans (stored_unexpired_le grant.identity now b.grants)
      (h grant.identity)
    generalize hkey : key b.authority grant.toolName grant.input grant.identity = k
    have hroom := beside_ceiling_lt grant.identity k _ hunexpired
    show stored identity (AList.insert (key b.authority grant.toolName grant.input grant.identity) _
      (enforceIdentityCeiling grant.identity
        (key b.authority grant.toolName grant.input grant.identity)
        (unexpired now b.grants))) ≤ _
    rw [hkey, stored_insert]
    by_cases hq : k.identity = identity
    · have hidentity : grant.identity = identity := by rw [← hq, ← hkey]; rfl
      rw [if_pos hq, ← hidentity]
      omega
    · rw [if_neg hq, Nat.zero_add]
      calc beside identity k _ ≤ stored identity _ := beside_le_stored _ _ _
        _ ≤ stored identity (unexpired now b.grants) := stored_ceiling_le _ _ _ _
        _ ≤ stored identity b.grants := stored_unexpired_le _ _ _
        _ ≤ maxGrantsPerIdentity := h identity
  | check token toolName input caller now =>
    by_cases hok : (b.check token toolName input caller now).1 = .ok ()
    · obtain ⟨hverify, e, he, hpos⟩ := check_ok.mp hok
      show stored identity (b.check token toolName input caller now).2.grants ≤ _
      rw [check_grants hverify he hpos, stored, AList.keys_insert,
        (List.perm_cons_erase (Lib.Table.mem_keys_of_lookup he)).symm.countP_eq]
      exact h identity
    · show stored identity (b.check token toolName input caller now).2.grants ≤ _
      rw [check_error hok]
      exact h identity
  | reap now => exact Nat.le_trans (stored_unexpired_le identity now b.grants) (h identity)

def isApprove : BrokerOp → Bool
  | .approve .. => true
  | _ => false

/-- The calls end with an approval of the triple, which came after so many others, and
with calls that do not approve it. -/
def LastApproved (a : ApprovalAuthority) (k : Key) (sequence : Nat) (ops : List BrokerOp) : Prop :=
  ∃ (earlier : List BrokerOp) (op : BrokerOp) (later : List BrokerOp),
    ops = earlier ++ op :: later ∧ approves a k op = true ∧
    (∀ o ∈ later, approves a k o = false) ∧ earlier.countP isApprove = sequence

/-- What holds of the broker after some calls. -/
structure Recorded (a : ApprovalAuthority) (ops : List BrokerOp) (b : ApprovalBroker) : Prop where
  authority : b.authority = a
  count : b.nextSequence = ops.countP isApprove
  last : ∀ k e, b.grants.lookup k = some e → LastApproved a k e.sequence ops
  ceiling : ∀ identity, stored identity b.grants ≤ maxGrantsPerIdentity

theorem LastApproved.append {sequence : Nat} {ops : List BrokerOp}
    (h : LastApproved a k sequence ops) {op : BrokerOp} (hop : approves a k op = false) :
    LastApproved a k sequence (ops ++ [op]) := by
  obtain ⟨earlier, last, later, rfl, hlast, hlater, hcount⟩ := h
  refine ⟨earlier, last, later ++ [op], by simp, hlast, fun o ho => ?_, hcount⟩
  rcases List.mem_append.mp ho with ho | ho
  · exact hlater o ho
  · rw [List.mem_singleton.mp ho]
    exact hop

theorem nextSequence_apply (b : ApprovalBroker) (op : BrokerOp) :
    (b.apply op).nextSequence = b.nextSequence + if isApprove op then 1 else 0 := by
  cases op with
  | approve grant nonce now => rfl
  | check token toolName input identity now =>
    simp only [apply, check]
    repeat' split
    all_goals simp_all [isApprove]
  | reap now => rfl

theorem recorded_step {ops : List BrokerOp} (h : Recorded a ops b) (op : BrokerOp) :
    Recorded a (ops ++ [op]) (b.apply op) := by
  refine ⟨?_, ?_, fun k e he => ?_, fun identity => stored_step h.ceiling op identity⟩
  · rw [apply_authority, h.authority]
  · rw [nextSequence_apply, h.count, List.countP_append, List.countP_singleton]
  · by_cases hop : approves a k op = true
    · obtain ⟨grant, nonce, now, rfl, rfl⟩ := approves_iff.mp hop
      have hnew := b.approve_lookup grant nonce now
      rw [h.authority] at hnew
      have he := he.symm.trans hnew
      cases he
      exact ⟨ops, _, [], rfl, hop, fun o ho => (by cases ho), h.count.symm⟩
    · have hop : approves a k op = false := by simpa using hop
      refine LastApproved.append ?_ hop
      rw [← h.authority] at hop
      rcases apply_cases hop with ⟨hsame, -⟩ | ⟨old, hold, -, -, hafter⟩ | ⟨old, -, hafter, -⟩
      · exact h.last k e (hsame ▸ he)
      · rw [hafter] at he
        cases he
        exact h.last k old hold
      · rw [hafter] at he
        cases he

theorem run_append (a : ApprovalAuthority) (ops : List BrokerOp) (op : BrokerOp) :
    run a (ops ++ [op]) = (run a ops).apply op := by
  simp [run]

theorem run_recorded (a : ApprovalAuthority) (ops : List BrokerOp) :
    Recorded a ops (run a ops) := by
  induction ops using List.reverseRecOn with
  | nil => exact ⟨rfl, rfl, fun k e he => (by cases he), fun identity => Nat.zero_le _⟩
  | append_singleton ops op ih =>
    rw [run_append]
    exact recorded_step ih op

theorem approves_unique {k' : Key} {op : BrokerOp} (h : approves a k op = true)
    (h' : approves a k' op = true) :
    k = k' := by
  obtain ⟨grant, nonce, now, rfl, rfl⟩ := approves_iff.mp h
  obtain ⟨_, _, _, hop, rfl⟩ := approves_iff.mp h'
  cases hop
  rfl

/-- The triple has not been approved since the other one was. -/
def ApprovedBefore (a : ApprovalAuthority) (ops : List BrokerOp) (k k' : Key) : Prop :=
  ∃ earlier later, ops = earlier ++ later ∧ (∀ o ∈ later, approves a k o = false) ∧
    ∃ o ∈ later, approves a k' o = true

theorem approvedBefore {k' : Key} {sequence sequence' : Nat} {ops : List BrokerOp} (hne : k ≠ k')
    (h : LastApproved a k sequence ops) (h' : LastApproved a k' sequence' ops)
      (hle : sequence ≤ sequence') :
    ApprovedBefore a ops k k' := by
  obtain ⟨earlier, op, later, hops, hop, hlater, hcount⟩ := h
  obtain ⟨earlier', op', later', hops', hop', -, hcount'⟩ := h'
  refine ⟨earlier ++ [op], later, by simp [hops], hlater, op', ?_, hop'⟩
  have heq : earlier ++ op :: later = earlier' ++ op' :: later' := hops.symm.trans hops'
  rcases List.append_eq_append_iff.mp heq with ⟨mid, -, hrest⟩ | ⟨mid, hmid, hrest⟩
  · cases mid with
    | nil =>
      obtain ⟨rfl, -⟩ := List.cons.inj hrest
      exact absurd (approves_unique hop hop') hne
    | cons m mid =>
      obtain ⟨-, hrest⟩ := List.cons.inj hrest
      rw [hrest]
      exact List.mem_append_right _ List.mem_cons_self
  · cases mid with
    | nil =>
      obtain ⟨rfl, -⟩ := List.cons.inj hrest
      exact absurd (approves_unique hop hop') hne
    | cons m mid =>
      -- the other approval would be among those counted before this one
      obtain ⟨rfl, -⟩ := List.cons.inj hrest
      have happroval : isApprove op' = true := by
        obtain ⟨_, _, _, rfl, -⟩ := approves_iff.mp hop'
        rfl
      rw [hmid, List.countP_append, List.countP_cons, if_pos happroval] at hcount
      omega

theorem approval_spending (a : ApprovalAuthority) (ops : List BrokerOp) :
    (∀ earlier grant nonce now later, ops = earlier ++ BrokerOp.approve grant nonce now :: later →
      (∀ op ∈ later, approves a (key a grant.toolName grant.input grant.identity) op = false) →
      spent (key a grant.toolName grant.input grant.identity)
        (run a (earlier ++ [BrokerOp.approve grant nonce now])) later ≤
        grant.replayMax) ∧
    (∀ k, (∀ op ∈ ops, approves a k op = false) → spent k { authority := a } ops = 0) ∧
    (∀ token toolName input identity now,
      ((run a ops).check token toolName input identity now).1 ≠ .ok () →
      ((run a ops).check token toolName input identity now).2 = run a ops) ∧
    (∀ identity, stored identity (run a ops).grants ≤ 64) ∧
    ∀ op k e, (run a ops).grants.lookup k = some e → approves a k op = false →
      ((run a ops).apply op).grants.lookup k = some e ∨
      ((run a ops).spends k op = true ∧
        ((run a ops).apply op).grants.lookup k =
          some { e with remainingUses := e.remainingUses - 1 }) ∨
      (((run a ops).apply op).grants.lookup k = none ∧ (Reaped op e ∨
        ∃ grant nonce now, op = .approve grant nonce now ∧ grant.identity = k.identity ∧
          key a grant.toolName grant.input grant.identity ≠ k ∧
          beside k.identity (key a grant.toolName grant.input grant.identity)
            (unexpired now (run a ops).grants) = 64 ∧
          ∀ k' e', (unexpired now (run a ops).grants).lookup k' = some e' →
            k'.identity = k.identity →
            k' ≠ key a grant.toolName grant.input grant.identity → k' ≠ k →
              ApprovedBefore a ops k k')) := by
  have hrecorded := run_recorded a ops
  refine ⟨?_, fun k hops => ?_, fun token toolName input identity now h => check_error h,
    hrecorded.ceiling, ?_⟩
  · intro earlier grant nonce now later hops hlater
    have hauthority := (run_recorded a earlier).authority
    have hlookup := (run a earlier).approve_lookup grant nonce now
    rw [hauthority] at hlookup
    have hremaining : (run a (earlier ++ [BrokerOp.approve grant nonce now])).remaining
        (key a grant.toolName grant.input grant.identity) = grant.replayMax := by
      rw [run_append, remaining]
      show ((AList.lookup _ ((run a earlier).approve grant nonce now).2.grants).map _).getD 0 = _
      rw [hlookup]
      rfl
    rw [← hremaining]
    refine spent_le fun op hop => ?_
    rw [(run_recorded a _).authority]
    exact hlater op hop
  · exact Nat.le_zero.mp (spent_le (b := { authority := a }) hops)
  · intro op k e he hop
    rw [← hrecorded.authority] at hop
    rcases apply_cases hop with ⟨hsame, -⟩ | ⟨old, hold, hspends, -, hafter⟩ | ⟨old, hold,
      hafter, -, hwhy⟩
    · exact .inl (hsame.trans he)
    · obtain rfl : old = e := Option.some.inj (hold.symm.trans he)
      exact .inr (.inl ⟨hspends, hafter⟩)
    · obtain rfl : old = e := Option.some.inj (hold.symm.trans he)
      refine .inr (.inr ⟨hafter, hwhy.imp_right ?_⟩)
      rintro ⟨grant, nonce, now, rfl, hother, hfull, hleast⟩
      rw [hrecorded.authority] at hother hfull hleast
      obtain ⟨hidentity, hne⟩ := others_iff.mp hother
      refine ⟨grant, nonce, now, rfl, hidentity.symm, hne.symm,
        Nat.le_antisymm ?_ (hidentity ▸ hfull), ?_⟩
      · calc beside k.identity _ (unexpired now (run a ops).grants)
            ≤ stored k.identity (unexpired now (run a ops).grants) := beside_le_stored _ _ _
          _ ≤ stored k.identity (run a ops).grants := stored_unexpired_le _ _ _
          _ ≤ 64 := hrecorded.ceiling k.identity
      · intro k' e' he' hsame hnew hk'
        have hle := hleast k' e' he' (others_iff.mpr ⟨hsame.trans hidentity, hnew⟩)
        rw [lookup_unexpired, Option.filter_eq_some_iff] at he'
        exact approvedBefore hk'.symm (hrecorded.last k old hold) (hrecorded.last k' e' he'.1) hle

end ApprovalBroker

end Orangutan.Permission
