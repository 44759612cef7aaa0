import Orangutan.Permission.Expiry

/-!
# What a token binds

The signed bytes are framed: two texts behind their lengths, then fields of fixed sizes. Under a
code that is known only for messages the authority signed, a token that verifies repeats the fields
of an issued one.
-/

namespace Orangutan.Permission

set_option autoImplicit false

open Orangutan.Core

theorem length_littleEndian (width n : Nat) : (littleEndian width n).length = width := by
  rw [littleEndian, List.length_map, List.length_range]

theorem mod_of_littleEndian {width m n : Nat} (h : littleEndian width m = littleEndian width n) :
    m % 256 ^ width = n % 256 ^ width := by
  have hdigit : ∀ i < width, m / 256 ^ i % 256 = n / 256 ^ i % 256 := by
    intro i hi
    have hbyte := congrArg UInt8.toNat (List.map_inj_left.mp h i (List.mem_range.mpr hi))
    simpa using hbyte
  clear h
  induction width with
  | zero => rw [Nat.pow_zero, Nat.mod_one, Nat.mod_one]
  | succ width ih =>
    rw [Nat.pow_succ, Nat.mod_mul, Nat.mod_mul, ih fun i hi => hdigit i (by omega),
      hdigit width (by omega)]

/-- The values of a 64-bit signed integer. -/
def InInt64 (n : Int) : Prop := -2 ^ 63 ≤ n ∧ n < 2 ^ 63

theorem inInt64_wrapInt64 (n : Int) : InInt64 (wrapInt64 n) := by
  unfold InInt64 wrapInt64 Int.bmod
  dsimp only
  split <;> omega

theorem inInt64_toUnixMillis {t : Time} (h : InInt64 t) : InInt64 (toUnixMillis t) := by
  obtain ⟨hlow, hhigh⟩ := h
  unfold toUnixMillis
  rcases Int.le_total 0 t with hpos | hneg
  · rw [Int.tdiv_eq_ediv_of_nonneg hpos]
    exact ⟨by omega, by omega⟩
  · obtain ⟨s, rfl⟩ : ∃ s : Int, t = -s := ⟨-t, (Int.neg_neg t).symm⟩
    have hs : 0 ≤ s := by omega
    rw [Int.neg_tdiv, Int.tdiv_eq_ediv_of_nonneg hs]
    have hsmall : 0 ≤ s / 1000000 ∧ s / 1000000 ≤ s := by omega
    unfold InInt64
    omega

theorem int64_of_littleEndian {m n : Int} (hm : InInt64 m) (hn : InInt64 n)
    (h : littleEndian 8 (m % 2 ^ 64).toNat = littleEndian 8 (n % 2 ^ 64).toNat) : m = n := by
  have hmod := mod_of_littleEndian h
  obtain ⟨hm, hm'⟩ := hm
  obtain ⟨hn, hn'⟩ := hn
  omega

/-- A text written behind its length in four bytes. -/
theorem framed_append {s s' t t' : Bytes} (hs : s.length < 2 ^ 32) (hs' : s'.length < 2 ^ 32)
    (h : littleEndian 4 (s.length % 2 ^ 32) ++ (s ++ t) = littleEndian 4 (s'.length % 2 ^ 32) ++
      (s' ++ t')) :
    s = s' ∧ t = t' := by
  obtain ⟨hlength, hrest⟩ := List.append_inj h (by rw [length_littleEndian, length_littleEndian])
  have hmod := mod_of_littleEndian hlength
  exact List.append_inj hrest (by omega)

/-- What is signed. -/
structure Fields where
  toolName : Bytes
  identity : Bytes
  inputHash : Bytes
  nonce : Bytes
  expiresAt : Time

def Fields.canonicalBytes (f : Fields) : Bytes :=
  ApprovalAuthority.canonicalBytes f.toolName f.identity f.inputHash f.nonce f.expiresAt

/-- The sizes the types of the source give, and names whose length is written in full. -/
structure Fields.Sized (f : Fields) : Prop where
  toolName : f.toolName.length < 2 ^ 32
  identity : f.identity.length < 2 ^ 32
  inputHash : f.inputHash.length = 32
  nonce : f.nonce.length = 16
  expiresAt : InInt64 f.expiresAt

/-- Equal up to the sub-millisecond part of the expiry. -/
structure Fields.Agree (f g : Fields) : Prop where
  toolName : f.toolName = g.toolName
  identity : f.identity = g.identity
  inputHash : f.inputHash = g.inputHash
  nonce : f.nonce = g.nonce
  millis : toUnixMillis f.expiresAt = toUnixMillis g.expiresAt

theorem canonicalBytes_eq (f : Fields) : f.canonicalBytes =
    (kDomainSeparator ++ [kFormatVersion]) ++
      (littleEndian 4 (f.toolName.length % 2 ^ 32) ++ (f.toolName ++
      (littleEndian 4 (f.identity.length % 2 ^ 32) ++ (f.identity ++ (f.inputHash ++ (f.nonce ++
        littleEndian 8 (toUnixMillis f.expiresAt % 2 ^ 64).toNat)))))) := by
  simp only [Fields.canonicalBytes, ApprovalAuthority.canonicalBytes, appendStringView, appendLeU32,
    appendLeI64, List.append_assoc]

theorem canonicalBytes_iff {f g : Fields} (hf : f.Sized) (hg : g.Sized) :
    f.canonicalBytes = g.canonicalBytes ↔ f.Agree g := by
  rw [canonicalBytes_eq, canonicalBytes_eq]
  constructor
  · intro h
    obtain ⟨htool, h⟩ := framed_append hf.toolName hg.toolName (List.append_cancel_left h)
    obtain ⟨hidentity, h⟩ := framed_append hf.identity hg.identity h
    obtain ⟨hhash, h⟩ := List.append_inj h (hf.inputHash.trans hg.inputHash.symm)
    obtain ⟨hnonce, h⟩ := List.append_inj h (hf.nonce.trans hg.nonce.symm)
    exact ⟨htool, hidentity, hhash, hnonce,
      int64_of_littleEndian (inInt64_toUnixMillis hf.expiresAt)
        (inInt64_toUnixMillis hg.expiresAt) h⟩
  · intro h
    rw [h.toolName, h.identity, h.inputHash, h.nonce, h.millis]

def ApprovalToken.fields (token : ApprovalToken) : Fields :=
  { toolName := token.toolName
    identity := token.identity
    inputHash := token.inputHash
    nonce := token.nonce
    expiresAt := token.expiresAt }

/-- A call of `issue`, with the nonce it drew. -/
structure Issue where
  req : ApprovalRequest
  nonce : Bytes
  now : Time

def Issue.token (a : ApprovalAuthority) (i : Issue) : ApprovalToken := a.issue i.req i.nonce i.now

/-- The request and the nonce have the sizes of their types. -/
structure Issue.Sized (i : Issue) : Prop where
  toolName : i.req.toolName.length < 2 ^ 32
  identity : i.req.identity.length < 2 ^ 32
  nonce : i.nonce.length = 16

/-- The code presented is the code of messages of the authority only. -/
def Unforged (a : ApprovalAuthority) (issues : List Issue) (mac : Bytes) : Prop :=
  ∀ m, a.hmac m = mac → ∃ i ∈ issues, (i.token a).fields.canonicalBytes = m

/-- No other signed input has the digest of this one. -/
def NoCollision (a : ApprovalAuthority) (issues : List Issue) (input : Bytes) : Prop :=
  ∀ i ∈ issues, a.sha256 i.req.input = a.sha256 input → i.req.input = input

theorem sized_issued {a : ApprovalAuthority} {i : Issue} (hdigest : ∀ m, (a.sha256 m).length = 32)
    (h : i.Sized) :
    (i.token a).fields.Sized :=
  ⟨h.toolName, h.identity, hdigest _, h.nonce, inInt64_wrapInt64 _⟩

theorem approval_tokens_bind (a : ApprovalAuthority) (hdigest : ∀ m, (a.sha256 m).length = 32) :
    (∀ f g : Fields, f.Sized → g.Sized → (f.canonicalBytes = g.canonicalBytes ↔ f.Agree g)) ∧
      ∀ (issues : List Issue) (token : ApprovalToken) (toolName input identity : Bytes)
        (now : Time),
        (∀ i ∈ issues, i.Sized) → token.fields.Sized → Unforged a issues token.mac →
          NoCollision a issues input →
        a.verify token toolName input identity now = .ok () →
        now < token.expiresAt ∧ token.toolName = toolName ∧ token.identity = identity ∧
          ∃ i ∈ issues, i.req.input = input ∧ (i.token a).fields.Agree token.fields := by
  refine ⟨fun f g hf hg => canonicalBytes_iff hf hg,
    fun issues token toolName input identity now hissues htoken hunforged hcollision hok => ?_⟩
  obtain ⟨hnow, htool, hidentity, hinput, hmac⟩ := ApprovalAuthority.verify_ok.mp hok
  obtain ⟨i, hi, hsame⟩ := hunforged token.fields.canonicalBytes hmac
  have hagree := (canonicalBytes_iff (sized_issued hdigest (hissues i hi)) htoken).mp hsame
  exact ⟨hnow, htool, hidentity, i, hi,
    hcollision i hi (hagree.inputHash.trans hinput.symm), hagree⟩

/-- The token of one approval. -/
theorem approval_tokens_bind_sample :
    let i : Issue :=
      ⟨{ toolName := text "FileRead", input := text "/tmp/a", identity := text "alice", ttl := 100 },
        ApprovalBroker.Sample.nonce 1, 0⟩
    let a := ApprovalBroker.Sample.authority
    a.verify (i.token a) (text "FileRead") (text "/tmp/a") (text "alice") 50000000000 = .ok () ∧
      50000000000 < (i.token a).expiresAt := by
  intro i a
  have hok : a.verify (i.token a) (text "FileRead") (text "/tmp/a") (text "alice") 50000000000 =
      .ok () := by
    decide +kernel
  have hsized : i.Sized := ⟨by decide, by decide, by decide⟩
  have hdigest : ∀ m, (a.sha256 m).length = 32 :=
    fun m => (by decide : ApprovalBroker.Sample.digest.length = 32)
  refine ⟨hok,
    ((approval_tokens_bind a hdigest).2 [i] (i.token a) _ _ _ _ ?_
    (sized_issued hdigest hsized) ?_ ?_ hok).1⟩
  · intro j hj
    rw [List.mem_singleton.mp hj]
    exact hsized
  · intro m hm
    refine ⟨i, List.mem_singleton_self i, ?_⟩
    by_contra hne
    have hother : m ≠ ApprovalBroker.Sample.message 1 100000000000 := fun he => hne he.symm
    have hcode : a.hmac m = _ := if_neg hother
    rw [hcode] at hm
    exact absurd hm (by decide +kernel)
  · intro j hj _
    rw [List.mem_singleton.mp hj]

end Orangutan.Permission
