import Orangutan.Channel.Dispatcher
import Orangutan.Core.ScalarValues

/-!
# Parts and keys

A reply is cut at the last code point that fits, again and again. What comes out is accepted when
the dispatcher splits each part once more. Keys tell conversations and events apart.
-/

namespace Orangutan.Channel

set_option autoImplicit false

open Orangutan.Core Orangutan.Core.Str

/-- The parts are the longest possible ones, one after the other. -/
inductive Parts (limit : Nat) : Bytes → List Bytes → Prop
  | done : Parts limit [] []
  | part {p rest : Bytes} {parts : List Bytes} (longest : LongestPrefix (p ++ rest) limit p)
      (ne : p ≠ [])
      (valid : isValidUtf8 rest = true) (h : Parts limit rest parts) :
        Parts limit (p ++ rest) (p :: parts)

variable {limit fuel : Nat} {t p : Bytes} {parts : List Bytes}

/-- The loop ends by itself: each round takes at least one byte away. -/
theorem parts_splitLoop (ht : isValidUtf8 t = true) (hlimit : 4 ≤ limit) (hfuel : t.length ≤ fuel) :
    Parts limit t (splitLoop limit fuel t) := by
  induction fuel generalizing t with
  | zero =>
    obtain rfl := List.length_eq_zero_iff.mp (Nat.le_zero.mp hfuel)
    exact .done
  | succ fuel ih =>
    unfold splitLoop
    split
    · next hempty =>
      obtain rfl := List.isEmpty_iff.mp hempty
      exact .done
    · next hempty =>
      have hne : t ≠ [] := fun he => hempty (List.isEmpty_iff.mpr he)
      have hpart := truncateToCodePoint_ne_nil ht hne hlimit
      have hlongest := truncateToCodePoint_longest ht limit
      dsimp only
      generalize truncateToCodePoint t limit = p at hpart hlongest
      obtain ⟨rest, rfl⟩ := hlongest.starts
      have hrest : isValidUtf8 rest = true := by rwa [isValidUtf8_append hlongest.valid] at ht
      have hpos := List.length_pos_iff.mpr hpart
      rw [List.length_append] at hfuel
      rw [List.drop_left]
      exact .part hlongest hpart hrest (ih hrest (by omega))

theorem splitText_eq (ht : isValidUtf8 t = true) (hlimit : 4 ≤ limit) :
    splitText t limit = .ok (splitLoop limit t.length t) := by
  rw [splitText, if_neg (Nat.not_lt.mpr hlimit), if_neg (by simp [ht])]

namespace Parts

theorem flatten (h : Parts limit t parts) : parts.flatten = t := by
  induction h with
  | done => rfl
  | part _ _ _ _ ih => rw [List.flatten_cons, ih]

theorem valid (h : Parts limit t parts) : isValidUtf8 t = true := by
  cases h with
  | done => rfl
  | part hlongest _ hrest _ => rw [isValidUtf8_append hlongest.valid, hrest]

theorem mem (h : Parts limit t parts) (hp : p ∈ parts) : p ≠ [] ∧ isValidUtf8 p = true ∧
    p.length ≤ limit := by
  induction h with
  | done => cases hp
  | part hlongest hne _ _ ih =>
    rcases List.mem_cons.mp hp with rfl | hp
    · exact ⟨hne, hlongest.valid, hlongest.fits⟩
    · exact ih hp

/-- The next code point does not fit into the part before it. -/
theorem maximal (h : Parts limit t parts) {before after : List Bytes} {c : Bytes}
    (hsplit : parts = before ++ p :: after) (hc : Sequence c) (hnext : c <+: after.flatten) :
    limit < p.length + c.length := by
  induction h generalizing before with
  | done => simp at hsplit
  | @part q rest parts hlongest hne _ h ih =>
    cases before with
    | cons b before => exact ih (List.cons.inj hsplit).2
    | nil =>
      obtain ⟨rfl, rfl⟩ := List.cons.inj hsplit
      rw [h.flatten] at hnext
      by_contra hfits
      have hvalid : isValidUtf8 (q ++ c) = true := by
        rw [isValidUtf8_append hlongest.valid, ← List.append_nil c, hc.valid]
        rfl
      have hlonger := hlongest.longest (q ++ c) ((List.prefix_append_right_inj q).mpr hnext) hvalid
        (by rw [List.length_append]; omega)
      have hlength := hlonger.length_le
      rw [List.length_append] at hlength
      have hnone : c = [] := List.length_eq_zero_iff.mp (by omega)
      subst hnone
      cases hc

theorem length_le (h : Parts limit t parts) : parts.length ≤ t.length := by
  induction h with
  | done => exact Nat.le_refl 0
  | part _ hne _ _ ih =>
    have hpos := List.length_pos_iff.mpr hne
    rw [List.length_append, List.length_cons]
    omega

theorem nil (h : Parts limit [] parts) : parts = [] := by
  have hflatten := h.flatten
  cases parts with
  | nil => rfl
  | cons p parts => exact absurd (List.append_eq_nil_iff.mp hflatten).1 (h.mem List.mem_cons_self).1

/-- Text that fits is one part. -/
theorem single (ht : isValidUtf8 p = true) (hne : p ≠ []) (hfits : p.length ≤ limit)
    (h : Parts limit p parts) :
    parts = [p] := by
  cases h with
  | done => exact absurd rfl hne
  | @part q rest parts hlongest hq _ h =>
    have hwhole := hlongest.longest (q ++ rest) (List.prefix_refl _) ht hfits
    have hlength := hwhole.length_le
    rw [List.length_append] at hlength
    have hnone : rest = [] := List.length_eq_zero_iff.mp (by omega)
    subst hnone
    rw [h.nil, List.append_nil]

end Parts

theorem splitText_fits (hp : isValidUtf8 p = true) (hne : p ≠ []) (hlimit : 4 ≤ limit)
    (hfits : p.length ≤ limit) :
    splitText p limit = .ok [p] := by
  rw [splitText_eq hp hlimit, (parts_splitLoop hp hlimit (Nat.le_refl _)).single hp hne hfits]

/-- The dispatcher takes the parts of its own splitter. -/
theorem replyParts_splitText (adapter : Adapter) (options : DispatcherOptions) (message : Message)
    (hsplit : options.splitReply = none) (hlimit : 4 ≤ adapter.textBytes message.conversation.kind)
    (ht : isValidUtf8 t = true) (hbytes : t.length ≤ options.maxReplyBytes) :
    replyParts adapter options message t =
      .returned (splitText t (adapter.textBytes message.conversation.kind)) := by
  generalize hkind : adapter.textBytes message.conversation.kind = limit at hlimit
  have hparts := parts_splitLoop ht hlimit (Nat.le_refl t.length)
  unfold replyParts
  rw [hkind, if_neg (Nat.not_lt.mpr hbytes), hsplit, Option.elim_none, splitText_eq ht hlimit]
  dsimp only
  generalize splitLoop limit t.length t = parts at hparts
  have hcount : ¬ ((!t.isEmpty && parts.isEmpty) || decide (options.maxReplyBytes < parts.length)) =
      true := by
    have hlength := hparts.length_le
    have hempty : parts = [] → t = [] := fun he => by rw [← hparts.flatten, he, List.flatten_nil]
    simp only [Bool.or_eq_true, Bool.and_eq_true, Bool.not_eq_true', List.isEmpty_eq_false_iff,
      List.isEmpty_iff, decide_eq_true_eq, not_or, not_and]
    exact ⟨fun hne he => hne (hempty he), by omega⟩
  have hagain : ¬ (parts.any fun part => part.isEmpty || (splitText part limit).toOption.all
      (·.length != 1)) = true := by
    rw [Bool.not_eq_true, List.any_eq_false]
    intro p hp
    obtain ⟨hne, hvalid, hfits⟩ := hparts.mem hp
    rw [splitText_fits hvalid hne hlimit hfits]
    simp [hne, Except.toOption]
  rw [if_neg hcount, if_neg hagain]

/-- Splitting a reply. -/
theorem splitText_parts (t : Bytes) (limit : Nat) (ht : isValidUtf8 t = true) (hlimit : 4 ≤ limit) :
    ∃ parts, splitText t limit = .ok parts ∧
      (∀ fuel, t.length ≤ fuel → (splitLoop limit fuel t).flatten = t) ∧
      parts.flatten = t ∧
      (∀ p ∈ parts, p ≠ [] ∧ isValidUtf8 p = true ∧ p.length ≤ limit ∧
        splitText p limit = .ok [p]) ∧
      (∀ before p after c, parts = before ++ p :: after → Sequence c → c <+: after.flatten →
        limit < p.length + c.length) ∧
      ∀ adapter options message, options.splitReply = none →
        adapter.textBytes message.conversation.kind = limit →
        t.length ≤ options.maxReplyBytes →
          replyParts adapter options message t = .returned (.ok parts) := by
  have hparts := parts_splitLoop ht hlimit (Nat.le_refl t.length)
  refine ⟨splitLoop limit t.length t, splitText_eq ht hlimit,
    fun fuel hfuel => (parts_splitLoop ht hlimit hfuel).flatten, hparts.flatten, fun p hp => ?_,
    fun before p after c hsplit hc hnext => hparts.maximal hsplit hc hnext,
    fun adapter options message hsplit hkind hbytes => ?_⟩
  · obtain ⟨hne, hvalid, hfits⟩ := hparts.mem hp
    exact ⟨hne, hvalid, hfits, splitText_fits hvalid hne hlimit hfits⟩
  · rw [replyParts_splitText adapter options message hsplit (hkind ▸ hlimit) ht hbytes, hkind,
      splitText_eq ht hlimit]

/-- A euro sign at the limit. -/
theorem splitText_parts_euro :
    isValidUtf8 [0x61, 0x62, 0xE2, 0x82, 0xAC] = true ∧
      ∃ parts, splitText [0x61, 0x62, 0xE2, 0x82, 0xAC] 4 = .ok parts ∧
        parts.flatten = [0x61, 0x62, 0xE2, 0x82, 0xAC] := by
  have hvalid : isValidUtf8 [0x61, 0x62, 0xE2, 0x82, 0xAC] = true := by decide
  obtain ⟨parts, hsplit, -, hflatten, -⟩ :=
    splitText_parts [0x61, 0x62, 0xE2, 0x82, 0xAC] 4 hvalid (Nat.le_refl 4)
  exact ⟨hvalid, parts, hsplit, hflatten⟩

theorem conversationKey_injective : Function.Injective conversationKey := by
  intro c d h
  have happend : conversationKey c ++ [] = conversationKey d ++ [] := by rw [h]
  exact (conversationKey_append happend).1

/-- An event is named by its conversation and its id. -/
theorem eventKey_iff (m m' : Message) :
    eventKey m = eventKey m' ↔ m.conversation = m'.conversation ∧ m.eventId = m'.eventId := by
  constructor
  · intro h
    unfold eventKey at h
    rw [List.append_assoc, List.append_assoc] at h
    obtain ⟨hconversation, hrest⟩ := conversationKey_append h
    exact ⟨hconversation, List.append_cancel_left hrest⟩
  · rintro ⟨hconversation, hid⟩
    unfold eventKey
    rw [hconversation, hid]

/-- Whatever the identifiers contain, no two conversations share a lease and no two events an entry.
-/
theorem keys_injective :
    (∀ c d : Conversation, conversationKey c = conversationKey d ↔ c = d) ∧
      ∀ m m' : Message, eventKey m = eventKey m' ↔ m.conversation = m'.conversation ∧
        m.eventId = m'.eventId :=
  ⟨fun _ _ => conversationKey_injective.eq_iff, eventKey_iff⟩

end Orangutan.Channel
