import Orangutan.Core.Json

/-!
# Channel messages and adapters

A conversation key writes the length of each free text before it, and an event key is
the key of its conversation followed by the event's id, so that events of two
conversations never share a key.
-/

namespace Orangutan.Channel

set_option autoImplicit false

open Orangutan.Core Orangutan.Core.Str

inductive Platform
  | telegram
  | qq
  | feishu
  deriving DecidableEq

/-- The `static_cast<int>` of the enumerator. -/
def Platform.index : Platform → Nat
  | telegram => 0
  | qq => 1
  | feishu => 2

inductive ChatKind
  | direct
  | group
  deriving DecidableEq

def ChatKind.index : ChatKind → Nat
  | direct => 0
  | group => 1

structure Conversation where
  platform : Platform
  account : Bytes
  kind : ChatKind
  chat : Bytes
  thread : Bytes
  deriving DecidableEq

structure ImageAttachment where
  fileId : Bytes
  mediaType : Bytes
  fileSize : Nat := 0
  deriving DecidableEq

structure ReplyContext where
  messageId : Bytes
  sender : Bytes
  text : Bytes
  quote : Bytes
  image : Option ImageAttachment := none
  referenceKey : Bytes := []
  deriving DecidableEq

structure Message where
  conversation : Conversation
  eventId : Bytes
  messageId : Bytes
  sender : Bytes
  text : Bytes
  image : Option ImageAttachment := none
  replyTo : Option ReplyContext := none
  referenceKey : Bytes := []
  deriving DecidableEq

structure Request where
  method : Bytes := text "POST"
  path : Bytes
  body : Bytes
  deriving DecidableEq

structure Response where
  status : Nat := 200
  body : Bytes
  /-- Milliseconds. -/
  retryAfter : Option Nat := none

structure Receipt where
  id : Bytes
  referenceKey : Bytes := []

/-- How a callback or an awaited port ends. -/
inductive Outcome (α : Type)
  | returned (result : Result α)
  | threw

/-- What the dispatcher uses of a protocol strategy. `reply` is pure, and may throw where
it writes JSON. -/
structure Adapter where
  platform : Platform
  textBytes : ChatKind → Nat
  reply : Message → Bytes → Nat → Outcome Request
  accept : Response → Result Receipt

def conversationKey (c : Conversation) : Bytes :=
  decimal c.platform.index ++ text ":" ++ decimal c.account.length ++ text ":" ++ c.account ++
    text ":" ++
    decimal c.kind.index ++ text ":" ++ decimal c.chat.length ++ text ":" ++ c.chat ++ text ":" ++
    decimal c.thread.length ++ text ":" ++ c.thread

def eventKey (m : Message) : Bytes :=
  conversationKey m.conversation ++ text ":" ++ m.eventId

def validImage (image : Option ImageAttachment) : Bool :=
  image.all fun i => !i.fileId.isEmpty && i.fileId.length ≤ 512

/-- `detail::validate`. -/
def validate (m : Message) (p : Platform) : Result Unit :=
  if m.conversation.platform != p || m.conversation.account.isEmpty ||
    m.conversation.chat.isEmpty ||
      m.eventId.isEmpty || m.messageId.isEmpty || m.sender.isEmpty ||
        (m.text.isEmpty && m.image.isNone) ||
      decide (256 < m.conversation.account.length) || decide (256 < m.conversation.chat.length) ||
      decide (256 < m.conversation.thread.length) || decide (256 < m.referenceKey.length) ||
      decide (256 < m.eventId.length) || decide (256 < m.messageId.length) ||
        decide (256 < m.sender.length) ||
      decide (65536 < m.text.length) then
    .error (.invalidArgument "invalid channel message identity or size")
  else if !isValidUtf8 m.text then .error (.invalidArgument "invalid UTF-8 text")
  else if !validImage m.image then .error (.invalidArgument "invalid channel image identifier")
  else
    match m.replyTo with
    | none => .ok ()
    | some reply =>
      if decide (256 < reply.referenceKey.length) || decide (256 < reply.messageId.length) ||
          decide (256 < reply.sender.length) || decide (65536 < reply.text.length) ||
          decide (65536 < reply.quote.length) || !isValidUtf8 reply.text ||
            !isValidUtf8 reply.quote ||
          !validImage reply.image then
        .error (.invalidArgument "invalid channel reply context")
      else .ok ()

/-- The loop of `split_text`. A part of valid text is never empty, so the length of the
text bounds its rounds. -/
def splitLoop (limit : Nat) : Nat → Bytes → List Bytes
  | 0, _ => []
  | fuel + 1, t =>
    if t.isEmpty then []
    else
      let part := truncateToCodePoint t limit
      part :: splitLoop limit fuel (t.drop part.length)

def splitText (t : Bytes) (limit : Nat) : Result (List Bytes) :=
  if limit < 4 then .error (.invalidArgument "text limit must be at least four bytes")
  else if !isValidUtf8 t then .error (.invalidArgument "invalid UTF-8 text")
  else .ok (splitLoop limit t.length t)

/-- Reading a number up to the colon after it. -/
theorem decimal_colon {m n : Nat} {t u : Bytes}
    (h : decimal m ++ text ":" ++ t = decimal n ++ text ":" ++ u) : m = n ∧ t = u := by
  have hstop : ∀ (k : Nat) (v : Bytes), (decimal k ++ text ":" ++ v).takeWhile (· != 0x3a) =
      decimal k := by
    intro k v
    have hdigits : ∀ b ∈ decimal k, (b != 0x3a) = true := by
      intro b hb
      have hle := (decimal_digits k b hb).2
      simp only [bne_iff_ne]
      rintro rfl
      exact absurd hle (by decide)
    rw [List.append_assoc, List.takeWhile_append_of_pos hdigits]
    show decimal k ++ ((0x3a :: v).takeWhile (· != 0x3a)) = decimal k
    rw [List.takeWhile_cons_of_neg (by decide), List.append_nil]
  have hnumber : decimal m = decimal n := by rw [← hstop m t, ← hstop n u, h]
  obtain rfl := decimal_injective hnumber
  exact ⟨rfl, List.append_cancel_left h⟩

/-- A text written behind its length. -/
theorem sized_append {s s' t u : Bytes} (h : decimal s.length ++ text ":" ++ (s ++ t) =
    decimal s'.length ++ text ":" ++ (s' ++ u)) : s = s' ∧ t = u := by
  obtain ⟨hlength, hrest⟩ := decimal_colon h
  exact List.append_inj hrest hlength

/-- A key can be told from what follows it. -/
theorem conversationKey_append {c d : Conversation} {t u : Bytes}
    (h : conversationKey c ++ t = conversationKey d ++ u) : c = d ∧ t = u := by
  have hkey : ∀ (c : Conversation) (t : Bytes), conversationKey c ++ t =
      decimal c.platform.index ++ text ":" ++ (decimal c.account.length ++ text ":" ++ (c.account ++
        (text ":" ++ (decimal c.kind.index ++ text ":" ++
          (decimal c.chat.length ++ text ":" ++ (c.chat ++
          (text ":" ++ (decimal c.thread.length ++ text ":" ++ (c.thread ++ t))))))))) := by
    intro c t
    simp only [conversationKey, List.append_assoc]
  rw [hkey, hkey] at h
  obtain ⟨hplatform, h⟩ := decimal_colon h
  obtain ⟨haccount, h⟩ := sized_append h
  obtain ⟨hkind, h⟩ := decimal_colon (List.append_cancel_left h)
  obtain ⟨hchat, h⟩ := sized_append h
  obtain ⟨hthread, h⟩ := sized_append (List.append_cancel_left h)
  refine ⟨?_, h⟩
  obtain ⟨p, account, k, chat, thread⟩ := c
  obtain ⟨p', account', k', chat', thread'⟩ := d
  have hplatform : p = p' := by cases p <;> cases p' <;> first | rfl | cases hplatform
  have hkind : k = k' := by cases k <;> cases k' <;> first | rfl | cases hkind
  dsimp only at haccount hchat hthread
  rw [hplatform, hkind, haccount, hchat, hthread]

theorem eventKey_conversation {m m' : Message} (h : eventKey m = eventKey m') :
    m.conversation = m'.conversation := by
  unfold eventKey at h
  rw [List.append_assoc, List.append_assoc] at h
  exact (conversationKey_append h).1

end Orangutan.Channel
