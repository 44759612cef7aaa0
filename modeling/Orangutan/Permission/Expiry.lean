import Orangutan.Permission.ApprovalBroker

/-!
# Expired grants

Expiry is stored in the token and in the grant. The broker leaves it to the token to
fail, and a grant that was renewed for a shorter time outlasts itself: an older token
of the triple still opens it. Where no token outlives the grant it is presented for,
expired grants are not honoured and reaping them earlier makes no difference.
-/

namespace Orangutan.Permission

set_option autoImplicit false

open Orangutan.Core

def BrokerOp.time : BrokerOp → Time
  | .approve _ _ now => now
  | .check _ _ _ _ now => now
  | .reap now => now

namespace ApprovalBroker

/-- What a call returns to its caller, the count of `reap_expired` apart. -/
def result (b : ApprovalBroker) : BrokerOp → Result (Option ApprovalToken)
  | .approve grant nonce now => .ok (some (b.approve grant nonce now).1)
  | .check token toolName input identity now => (b.check token toolName input identity now).1.map
      fun _ => none
  | .reap _ => .ok none

/-- What the calls of a run return. -/
def results : ApprovalBroker → List BrokerOp → List (Result (Option ApprovalToken))
  | _, [] => []
  | b, op :: ops => b.result op :: results (b.apply op) ops

/-- A token that verifies does not outlive the grant that is stored for its triple, if that has uses
left. -/
def Outlasts (b : ApprovalBroker) : BrokerOp → Prop
  | .check token toolName input identity now =>
    b.authority.verify token toolName input identity now = .ok () →
      ∀ e, b.grants.lookup (key b.authority toolName input identity) = some e →
        e.remainingUses ≠ 0 →
        token.expiresAt ≤ e.expiresAt
  | _ => True

/-- The same of a grant without uses. -/
def OutlastsSpent (b : ApprovalBroker) : BrokerOp → Prop
  | .check token toolName input identity now =>
    b.authority.verify token toolName input identity now = .ok () →
      ∀ e, b.grants.lookup (key b.authority toolName input identity) = some e →
        e.remainingUses = 0 →
        token.expiresAt ≤ e.expiresAt
  | _ => True

/-- Every call of the run finds it so. -/
def Throughout (p : ApprovalBroker → BrokerOp → Prop) : ApprovalBroker → List BrokerOp → Prop
  | _, [] => True
  | b, op :: ops => p b op ∧ Throughout p (b.apply op) ops

variable {a : ApprovalAuthority} {b b' : ApprovalBroker} {p : ApprovalBroker → BrokerOp → Prop}

theorem Throughout.split {earlier later : List BrokerOp} (h : Throughout p b (earlier ++ later)) :
    Throughout p (earlier.foldl apply b) later := by
  induction earlier generalizing b with
  | nil => exact h
  | cons op earlier ih => exact ih h.2

/-- A check that succeeds finds a grant that is still good. -/
theorem check_unexpired {token : ApprovalToken} {toolName input identity : Bytes} {now : Time}
    (h : b.Outlasts (.check token toolName input identity now))
    (hok : (b.check token toolName input identity now).1 = .ok ()) :
    ∃ e, b.grants.lookup (key b.authority toolName input identity) = some e ∧
      now < e.expiresAt := by
  obtain ⟨hverify, e, he, hleft⟩ := check_ok.mp hok
  exact ⟨e, he, lt_of_lt_of_le (ApprovalAuthority.verify_ok.mp hverify).1 (h hverify e he hleft)⟩

theorem unexpired_unexpired {now later : Time} (h : now ≤ later) (grants : Lib.Table Key Entry) :
    unexpired later (unexpired now grants) = unexpired later grants := by
  refine Lib.Table.keep_keep (fun _ e he => ?_) grants
  simp only [Bool.not_eq_true', decide_eq_false_iff_not, not_le] at he ⊢
  exact lt_of_le_of_lt h he

theorem unexpired_insert {now : Time} {e : Entry} (hlt : now < e.expiresAt) (k : Key)
    (grants : Lib.Table Key Entry) :
    unexpired now (AList.insert k e grants) = AList.insert k e (unexpired now grants) :=
  Lib.Table.keep_insert (p := fun _ (e : Entry) => !decide (e.expiresAt ≤ now))
    (by simpa using hlt) grants

/-- The second broker lacks some grants of the first that have expired. -/
structure Reduced (now : Time) (b b' : ApprovalBroker) : Prop where
  authority : b'.authority = b.authority
  sequence : b'.nextSequence = b.nextSequence
  unexpired : unexpired now b'.grants = unexpired now b.grants
  subset : ∀ k e, b'.grants.lookup k = some e → b.grants.lookup k = some e

theorem Reduced.mono {now later : Time} (h : Reduced now b b') (hle : now ≤ later) :
    Reduced later b b' := by
  refine ⟨h.authority, h.sequence, ?_, h.subset⟩
  rw [← unexpired_unexpired hle b'.grants, h.unexpired, unexpired_unexpired hle]

theorem reduced_reap (b : ApprovalBroker) (now : Time) : Reduced now b (b.apply (.reap now)) := by
  refine ⟨rfl, rfl, unexpired_unexpired (le_refl now) b.grants, fun k e he => ?_⟩
  have he : (ApprovalBroker.unexpired now b.grants).lookup k = some e := he
  rw [lookup_unexpired, Option.filter_eq_some_iff] at he
  exact he.1

theorem Reduced.lookup {now : Time} (h : Reduced now b b') {k : Key} {e : Entry}
    (he : b.grants.lookup k = some e) (hlt : now < e.expiresAt) : b'.grants.lookup k = some e := by
  have hkept : (ApprovalBroker.unexpired now b'.grants).lookup k = some e := by
    rw [h.unexpired, lookup_unexpired, he]
    simp [hlt]
  rw [lookup_unexpired, Option.filter_eq_some_iff] at hkept
  exact hkept.1

/-- The check of a token that does not outlive its grant succeeds or fails alike, and for the same
reason unless the grant is spent. -/
theorem Reduced.check {token : ApprovalToken} {toolName input identity : Bytes} {now : Time}
    (h : Reduced now b b') (hout : b.Outlasts (.check token toolName input identity now)) :
    (b'.check token toolName input identity now).1.toOption =
      (b.check token toolName input identity now).1.toOption ∧
    (b.OutlastsSpent (.check token toolName input identity now) →
      (b'.check token toolName input identity now).1 =
        (b.check token toolName input identity now).1) ∧
    Reduced now (b.check token toolName input identity now).2
      (b'.check token toolName input identity now).2 := by
  unfold ApprovalBroker.OutlastsSpent ApprovalBroker.check
  rw [h.authority]
  split
  · exact ⟨rfl, fun _ => rfl, h⟩
  · next hverify =>
    dsimp only
    have hlt := (ApprovalAuthority.verify_ok.mp hverify).1
    cases he : b.grants.lookup (key b.authority toolName input identity) with
    | none =>
      have hnone : b'.grants.lookup (key b.authority toolName input identity) = none := by
        rw [Option.eq_none_iff_forall_ne_some]
        intro e he'
        rw [h.subset _ e he'] at he
        cases he
      rw [hnone]
      exact ⟨rfl, fun _ => rfl, h⟩
    | some e =>
      dsimp only
      by_cases hspent : e.remainingUses = 0
      · -- when it has expired it may not be there, and when it is there it is spent
        have hthere : ∀ e', b'.grants.lookup (key b.authority toolName input identity) = some e' →
            e' = e :=
          fun e' he' => Option.some.inj ((h.subset _ _ he').symm.trans he)
        rw [if_pos hspent]
        refine ⟨?_, fun hout' => ?_, ?_⟩
        · rcases hgrant : b'.grants.lookup (key b.authority toolName input identity) with _ | e'
          · rfl
          · obtain rfl := hthere e' hgrant
            dsimp only
            rw [if_pos hspent]
        · rw [h.lookup he (lt_of_lt_of_le hlt (hout' hverify e rfl hspent))]
          dsimp only
          rw [if_pos hspent]
        · rcases hgrant : b'.grants.lookup (key b.authority toolName input identity) with _ | e'
          · exact h
          · obtain rfl := hthere e' hgrant
            dsimp only
            rw [if_pos hspent]
            exact h
      · have hgood : now < e.expiresAt := lt_of_lt_of_le hlt (hout hverify e he hspent)
        rw [h.lookup he hgood]
        dsimp only
        rw [if_neg hspent, if_neg hspent]
        refine ⟨rfl, fun _ => rfl, rfl, h.sequence, ?_, fun k e' he' => ?_⟩
        · dsimp only
          rw [unexpired_insert (by exact hgood), unexpired_insert (by exact hgood), h.unexpired]
        · by_cases hk : k = key b.authority toolName input identity
          · subst hk
            rw [AList.lookup_insert] at he' ⊢
            exact he'
          · rw [AList.lookup_insert_ne hk] at he' ⊢
            exact h.subset k e' he'

theorem Reduced.approve {now : Time} (h : Reduced now b b') (grant : ApprovalGrant)
    (nonce : Bytes) :
    (b'.approve grant nonce now).1 = (b.approve grant nonce now).1 ∧
    (b'.approve grant nonce now).2 = (b.approve grant nonce now).2 := by
  unfold ApprovalBroker.approve reapExpired
  dsimp only
  rw [h.authority, h.sequence, h.unexpired]
  exact ⟨rfl, rfl⟩

theorem reduced_refl (now : Time) (b : ApprovalBroker) : Reduced now b b :=
    ⟨rfl, rfl, rfl, fun _ _ he => he⟩

/-- One call succeeds with the same or fails, and keeps the relation. -/
theorem Reduced.step {op : BrokerOp} (h : Reduced op.time b b') (hout : b.Outlasts op) :
    (b'.result op).toOption = (b.result op).toOption ∧
      (b.OutlastsSpent op → b'.result op = b.result op) ∧
      Reduced op.time (b.apply op) (b'.apply op) := by
  cases op with
  | approve grant nonce now =>
    have hsame : (b'.approve grant nonce now).1 = (b.approve grant nonce now).1 ∧
        (b'.approve grant nonce now).2 = (b.approve grant nonce now).2 :=
          Reduced.approve h grant nonce
    have hresult : b'.result (.approve grant nonce now) = b.result (.approve grant nonce now) := by
      rw [result, result, hsame.1]
    refine ⟨congrArg _ hresult, fun _ => hresult, ?_⟩
    · show Reduced _ (b.approve grant nonce now).2 (b'.approve grant nonce now).2
      rw [hsame.2]
      exact reduced_refl _ _
  | check token toolName input identity now =>
    obtain ⟨hsuccess, hreason, hnext⟩ := Reduced.check h hout
    refine ⟨?_, fun hout' => ?_, hnext⟩
    · have hmap : ∀ x : Result Unit, (x.map fun _ => (none : Option ApprovalToken)).toOption =
          x.toOption.map fun _ => none := by
        rintro (e | u) <;> rfl
      rw [result, result, hmap, hmap]
      exact congrArg _ hsuccess
    · rw [result, result]
      exact congrArg _ (hreason hout')
  | reap now =>
    have hunexpired : ApprovalBroker.unexpired now b'.grants =
      ApprovalBroker.unexpired now b.grants := h.unexpired
    refine ⟨rfl, fun _ => rfl, h.authority, h.sequence, congrArg _ hunexpired, fun k e he => ?_⟩
    show (ApprovalBroker.unexpired now b.grants).lookup k = some e
    rw [← hunexpired]
    exact he

theorem Reduced.results {now : Time} {ops : List BrokerOp} (h : Reduced now b b')
    (hlater : ∀ op ∈ ops, now ≤ op.time) (htimes : ops.Pairwise fun x y => x.time ≤ y.time)
    (hout : Throughout Outlasts b ops) :
    (b'.results ops).map Except.toOption = (b.results ops).map Except.toOption ∧
      (Throughout OutlastsSpent b ops → b'.results ops = b.results ops) := by
  induction ops generalizing now b b' with
  | nil => exact ⟨rfl, fun _ => rfl⟩
  | cons op ops ih =>
    obtain ⟨hfirst, hrest⟩ := List.pairwise_cons.mp htimes
    obtain ⟨hresult, hreason, hnext⟩ := (h.mono (hlater op List.mem_cons_self)).step hout.1
    obtain ⟨hresults, hreasons⟩ := ih hnext hfirst hrest hout.2
    rw [ApprovalBroker.results, ApprovalBroker.results]
    refine ⟨?_, fun hspent => ?_⟩
    · rw [List.map_cons, List.map_cons, hresult, hresults]
    · rw [hreason hspent.1, hreasons hspent.2]

/-- No expired grant is honoured, and reaping right before a check changes neither which calls
succeed from then on nor the tokens that they return. -/
def ExpiryAgrees (a : ApprovalAuthority) (ops : List BrokerOp) : Prop :=
  ∀ earlier token toolName input identity now later,
    ops = earlier ++ .check token toolName input identity now :: later →
    (((run a earlier).check token toolName input identity now).1 = .ok () →
      ∃ e, (run a earlier).grants.lookup (key a toolName input identity) = some e ∧
        now < e.expiresAt) ∧
    ((run a (earlier ++ [BrokerOp.reap now])).results (.check token toolName input identity now ::
      later)).map
        Except.toOption =
      ((run a earlier).results (.check token toolName input identity now :: later)).map
        Except.toOption

theorem expired_not_honoured (a : ApprovalAuthority) (ops : List BrokerOp)
    (htimes : ops.Pairwise fun x y => x.time ≤ y.time)
      (hout : Throughout Outlasts { authority := a } ops) :
    ExpiryAgrees a ops ∧
    -- where no token outlives a spent grant either, the reasons of the refusals are the same too
    (Throughout OutlastsSpent { authority := a } ops →
      ∀ earlier token toolName input identity now later,
      ops = earlier ++ .check token toolName input identity now :: later →
      (run a (earlier ++ [BrokerOp.reap now])).results
        (.check token toolName input identity now :: later) =
        (run a earlier).results (.check token toolName input identity now :: later)) ∧
    -- the condition is exact for a token that is good otherwise
    ∀ token toolName input identity e start,
      a.verify token toolName input identity start = .ok () →
      (run a ops).grants.lookup (key a toolName input identity) = some e → e.remainingUses ≠ 0 →
      ((∀ now, ((run a ops).check token toolName input identity now).1 = .ok () →
        now < e.expiresAt) ↔
        token.expiresAt ≤ e.expiresAt) := by
  have hreaped : ∀ earlier token toolName input identity now later,
      ops = earlier ++ .check token toolName input identity now :: later →
      ((run a (earlier ++ [BrokerOp.reap now])).results (.check token toolName input identity now ::
        later)).map
          Except.toOption =
        ((run a earlier).results (.check token toolName input identity now :: later)).map
          Except.toOption ∧
      (Throughout OutlastsSpent { authority := a } ops →
        (run a (earlier ++ [BrokerOp.reap now])).results
          (.check token toolName input identity now :: later) =
          (run a earlier).results (.check token toolName input identity now :: later)) := by
    intro earlier token toolName input identity now later hops
    subst hops
    have hordered := (List.pairwise_append.mp htimes).2.1
    rw [run_append]
    obtain ⟨hsuccess, hreasons⟩ := (reduced_reap (run a earlier) now).results (fun op hop => by
      rcases List.mem_cons.mp hop with rfl | hop
      · exact le_refl _
      · exact (List.pairwise_cons.mp hordered).1 op hop) hordered hout.split
    exact ⟨hsuccess, fun hspent => hreasons hspent.split⟩
  refine ⟨?_, fun hspent earlier token toolName input identity now later hops =>
    (hreaped earlier token toolName input identity now later hops).2 hspent, ?_⟩
  · intro earlier token toolName input identity now later hops
    refine ⟨fun hok => ?_, (hreaped earlier token toolName input identity now later hops).1⟩
    subst hops
    have hrest : Throughout Outlasts (run a earlier) (.check token toolName input identity now ::
      later) := hout.split
    have hgood := check_unexpired hrest.1 hok
    rw [(run_recorded a earlier).authority] at hgood
    exact hgood
  · intro token toolName input identity e start hverify he hpos
    have hauthority := (run_recorded a ops).authority
    have hcheck : ∀ now, ((run a ops).check token toolName input identity now).1 = .ok () ↔
        now < token.expiresAt := by
      intro now
      rw [check_ok, hauthority]
      constructor
      · exact fun h => (ApprovalAuthority.verify_ok.mp h.1).1
      · intro hlt
        refine ⟨ApprovalAuthority.verify_ok.mpr ⟨hlt, (ApprovalAuthority.verify_ok.mp hverify).2⟩,
          e, he, hpos⟩
    constructor
    · intro h
      by_contra hlt
      have hlt := not_le.mp hlt
      exact lt_irrefl _ (h e.expiresAt ((hcheck _).mpr hlt))
    · intro hle now hok
      exact lt_of_lt_of_le ((hcheck now).mp hok) hle

namespace Sample

/-- The digest of `/tmp/a`. -/
def digest : Bytes :=
  [217, 183, 65, 234, 61, 77, 36, 166, 238, 227, 97, 90, 72, 237, 191, 29, 201, 125, 248, 232, 63,
    69, 92, 167, 16, 92, 140, 184, 84, 240, 147, 204]

def nonce (n : UInt8) : Bytes := List.replicate 16 n

def message (n : UInt8) (expiresAt : Time) : Bytes :=
  ApprovalAuthority.canonicalBytes (text "FileRead") (text "alice") digest (nonce n) expiresAt

/-- An authority with the key `00 01 .. 1f`, on the two messages that are signed below. -/
def authority : ApprovalAuthority where
  sha256 _ := digest
  hmac m :=
    if m = message 1 100000000000 then
      [82, 140, 64, 5, 38, 30, 84, 210, 58, 104, 179, 77, 219, 200, 2, 149, 127, 87, 205, 2, 156,
        58, 195, 135, 90, 193, 22, 99, 39, 249, 92, 62]
    else
      [165, 211, 4, 102, 2, 237, 57, 253, 188, 94, 209, 222, 108, 55, 90, 125, 246, 52, 167, 92, 39,
        104, 20, 55, 207, 154, 150, 171, 136, 75, 53, 239]

def approval (n : UInt8) (ttl : Int) (now : Time) : BrokerOp :=
  .approve { toolName := text "FileRead", input := text "/tmp/a", identity := text "alice", ttl }
    (nonce n) now

/-- The token of the first approval. -/
def token : ApprovalToken :=
  authority.issue
    { toolName := text "FileRead", input := text "/tmp/a", identity := text "alice", ttl := 100 }
    (nonce 1) 0

def check (now : Time) : BrokerOp :=
    .check token (text "FileRead") (text "/tmp/a") (text "alice") now

end Sample

/-- One approval and one check in time. -/
theorem expired_not_honoured_once :
    ExpiryAgrees Sample.authority [Sample.approval 1 100 0, Sample.check 50000000000] ∧
    (run Sample.authority [Sample.approval 1 100 0]).result (Sample.check 50000000000) =
      .ok none := by
  have hentry : (run Sample.authority [Sample.approval 1 100 0]).grants.lookup
      (key Sample.authority (text "FileRead") (text "/tmp/a") (text "alice")) = some ⟨100000000000,
        8, 0⟩ := by
    decide +kernel
  have hout : Throughout Outlasts { authority := Sample.authority }
      [Sample.approval 1 100 0, Sample.check 50000000000] := by
    refine ⟨trivial, fun _ e he _ => ?_, trivial⟩
    have hq := he.symm.trans hentry
    cases hq
    exact (by decide : Sample.token.expiresAt ≤ 100000000000)
  exact ⟨(expired_not_honoured Sample.authority _ (by decide) hout).1, by decide +kernel⟩

/-- Approved for 100 seconds and, a second later, again for 10: after 50 seconds the
first token still opens the grant that ended at 11. -/
theorem expired_honoured_after_renewal :
    let ops := [Sample.approval 1 100 0, Sample.approval 2 10 1000000000, Sample.check 50000000000]
    (ops.Pairwise fun x y => x.time ≤ y.time) ∧ ¬ExpiryAgrees Sample.authority ops := by
  refine ⟨by decide, fun h => ?_⟩
  have hcheck :=
    (h [Sample.approval 1 100 0, Sample.approval 2 10 1000000000] Sample.token (text "FileRead")
    (text "/tmp/a") (text "alice") 50000000000 [] rfl).1 (by decide +kernel)
  obtain ⟨e, he, hlt⟩ := hcheck
  have hentry : (run Sample.authority [Sample.approval 1 100 0,
    Sample.approval 2 10 1000000000]).grants.lookup
      (key Sample.authority (text "FileRead") (text "/tmp/a") (text "alice")) =
      some ⟨11000000000, 8, 1⟩ := by decide +kernel
  rw [hentry] at he
  cases he
  exact absurd hlt (by decide)

end ApprovalBroker

end Orangutan.Permission
