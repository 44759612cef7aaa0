import Orangutan.Agent.Context
import Orangutan.Lib.Pairing
import Orangutan.Lib.Runs

/-!
# Tool exchanges under compaction

A cut lies where no tool call is pending, so what is taken from the front of a view
holds complete exchanges only. This is followed through any sequence of appended
messages and fittings.
-/

namespace Orangutan.Agent

set_option autoImplicit false

open Orangutan.Core Orangutan.Provider Orangutan.Lib

/-- A tool call opens its identity, a tool result closes it. -/
def mark : Content → Option (Mark Bytes)
  | .toolUse id _ _ => some (.opens id)
  | .toolResult id _ _ _ => some (.closes id)
  | _ => none

def marks (messages : List Message) : List (Mark Bytes) :=
  messages.flatMap fun message => message.blocks.filterMap mark

@[simp] theorem marks_append (a b : List Message) : marks (a ++ b) = marks a ++ marks b := by
  simp [marks]

/-- The scan over a message settles its marks. -/
theorem scanMessage_eq (pending : Finset Bytes) (message : Message) :
    scanMessage pending message = (message.blocks.filterMap mark).foldl Mark.settle pending := by
  unfold scanMessage
  generalize message.blocks = blocks
  induction blocks generalizing pending with
  | nil => rfl
  | cons block rest ih =>
    cases block with
    | toolUse id name inputJson => exact ih (insert id pending)
    | toolResult id output dataJson isError => exact ih (pending.erase id)
    | text t => exact ih pending
    | thinking t signature => exact ih pending
    | image mediaType dataBase64 => exact ih pending

theorem scanMessages_eq (pending : Finset Bytes) (messages : List Message) :
    messages.foldl scanMessage pending = (marks messages).foldl Mark.settle pending := by
  induction messages generalizing pending with
  | nil => rfl
  | cons message rest ih =>
    rw [List.foldl_cons, ih, scanMessage_eq]
    simp [marks, List.foldl_append]

/-- A cut comes after some, but not all messages, with nothing pending. -/
theorem cutsFrom_spec {i c : Nat} {pending : Finset Bytes} {messages : List Message}
    (h : c ∈ cutsFrom i pending messages) :
    ∃ k, c = i + k ∧ 0 < k ∧ k < messages.length ∧
      (messages.take k).foldl scanMessage pending = ∅ := by
  induction messages generalizing i pending with
  | nil => cases h
  | cons message rest ih =>
    cases rest with
    | nil => cases h
    | cons next rest =>
      rw [cutsFrom] at h
      rcases List.mem_append.mp h with h | h
      · split at h
        · next hcut =>
          simp only [Bool.and_eq_true, decide_eq_true_eq] at hcut
          refine ⟨1, List.mem_singleton.mp h, Nat.one_pos, by simp, ?_⟩
          simpa using hcut.1
        · cases h
      · obtain ⟨k, hc, hpos, hlt, hscan⟩ := ih h
        refine ⟨k + 1, by omega, Nat.succ_pos k, by simpa using hlt, ?_⟩
        rw [List.take_succ_cons, List.foldl_cons]
        exact hscan

theorem cuts_spec {c : Nat} {messages : List Message} (h : c ∈ cuts messages) :
    0 < c ∧ c < messages.length ∧ Mark.pending (marks (messages.take c)) = ∅ := by
  obtain ⟨k, hc, hpos, hlt, hscan⟩ := cutsFrom_spec h
  rw [Nat.zero_add] at hc
  subst hc
  refine ⟨hpos, hlt, ?_⟩
  rw [scanMessages_eq] at hscan
  exact hscan

/-- Everything that was appended so far, with the view that is left of it. -/
structure Track where
  all : List Message
  view : ContextView

inductive Track.Step (t : Track) : Track → Prop
  /-- Messages are appended that keep the exchanges paired. -/
  | append (more : List Message) (shape : Mark.Paired (marks (t.all ++ more))) :
      Step t ⟨t.all ++ more, { t.view with messages := t.view.messages ++ more }⟩
  /-- The view is fitted, whatever the host and the summary model do. -/
  | fit {σ : Type} (send : Request → σ → Reply × σ) (options : ContextOptions) (frame : Request)
      (cancelled : Bool) (s : σ) :
      Step t ⟨t.all, (fitContext send options frame cancelled t.view s).2.1⟩

/-- What is gone from the view is a front part with complete exchanges. -/
structure Track.Inv (t : Track) : Prop where
  shape : Mark.Paired (marks t.all)
  split : ∃ dropped, t.all = dropped ++ t.view.messages ∧ Mark.pending (marks dropped) = ∅
  last : t.view.messages.getLast? = t.all.getLast?

theorem getLast?_drop {messages : List Message} {cut : Nat} (h : cut < messages.length) :
    (messages.drop cut).getLast? = messages.getLast? := by
  have hne : messages.drop cut ≠ [] := by simpa using h
  conv_rhs => rw [← List.take_append_drop cut messages]
  rw [List.getLast?_append_of_ne_nil _ hne]

namespace Fits

variable {view after : ContextView} {result : Result Unit}

/-- The messages of a fitted view are an end part, with the last message in it. -/
theorem messages (h : Fits view result after) :
    ∃ front, view.messages = front ++ after.messages ∧ Mark.pending (marks front) = ∅ ∧
      after.messages.getLast? = view.messages.getLast? := by
  cases h with
  | fail e => exact ⟨[], rfl, rfl, rfl⟩
  | keep => exact ⟨[], rfl, rfl, rfl⟩
  | defer => exact ⟨[], rfl, rfl, rfl⟩
  | compact cut summary hcut =>
    obtain ⟨-, hlt, hpending⟩ := cuts_spec hcut
    exact ⟨view.messages.take cut, (List.take_append_drop cut _).symm, hpending, getLast?_drop hlt⟩

theorem of_error {e : Error} (h : Fits view (.error e) after) : after = view := by
  cases h
  rfl

/-- A deferral leaves checkpoint and messages. -/
theorem of_deferred (h : Fits view result after) (hd : after.deferred = true) :
    after.checkpoint = view.checkpoint ∧ after.messages = view.messages := by
  cases h with
  | fail e => exact ⟨rfl, rfl⟩
  | keep => exact ⟨rfl, rfl⟩
  | defer => exact ⟨rfl, rfl⟩
  | compact cut summary hcut => cases hd

end Fits

theorem track_inv_step {t u : Track} (h : t.Inv) (hs : t.Step u) : u.Inv := by
  obtain ⟨dropped, hall, hpending⟩ := h.split
  cases hs with
  | append more shape =>
    refine ⟨shape, ⟨dropped, by rw [hall, List.append_assoc], hpending⟩, ?_⟩
    show (t.view.messages ++ more).getLast? = (t.all ++ more).getLast?
    rw [List.getLast?_append, List.getLast?_append, h.last]
  | fit send options frame cancelled s =>
    obtain ⟨front, hview, hfront, hlast⟩ :=
      (fitContext_fits send options frame cancelled t.view s).messages
    refine ⟨h.shape, ⟨dropped ++ front, ?_, ?_⟩, hlast.trans h.last⟩
    · rw [List.append_assoc, ← hview]
      exact hall
    · rw [marks_append, Mark.pending_append hpending]
      exact hfront

/-- Compaction never splits a tool exchange. -/
theorem compaction_keeps_exchanges {messages : List Message} {checkpoint : WorkingContext}
    {deferred : Bool} (hshape : Mark.Paired (marks messages)) {t : Track}
    (hrun : Relation.ReflTransGen Track.Step ⟨messages, ⟨checkpoint, messages, deferred⟩⟩ t) :
    (∃ dropped, t.all = dropped ++ t.view.messages ∧
      (∀ pre post id, marks t.view.messages = pre ++ Mark.closes id :: post → Mark.opens id ∈ pre) ∧
      (∀ pre post id, marks dropped = pre ++ Mark.opens id :: post → Mark.closes id ∈ post)) ∧
    t.view.messages.getLast? = t.all.getLast? ∧
    ∀ {σ : Type} (send : Request → σ → Reply × σ) (options : ContextOptions) (frame : Request)
      (cancelled : Bool) (s : σ),
      (∀ e, (fitContext send options frame cancelled t.view s).1 = .error e →
        (fitContext send options frame cancelled t.view s).2.1 = t.view) ∧
      ((fitContext send options frame cancelled t.view s).2.1.deferred = true →
        (fitContext send options frame cancelled t.view s).2.1.checkpoint = t.view.checkpoint ∧
        (fitContext send options frame cancelled t.view s).2.1.messages = t.view.messages) := by
  have hinv := run_invariant (r := Track.Step) (I := Track.Inv) (fun _ _ => track_inv_step) hrun
    ⟨hshape, ⟨[], rfl, rfl⟩, rfl⟩
  obtain ⟨dropped, hall, hpending⟩ := hinv.split
  have hpaired : Mark.Paired (marks t.view.messages) := by
    have hshape := hinv.shape
    rw [hall, marks_append] at hshape
    exact hshape.of_append hpending
  refine ⟨⟨dropped, hall, ?_, ?_⟩, hinv.last, ?_⟩
  · intro pre post id he
    obtain ⟨a, b, hpre, -⟩ := hpaired.answer pre post id he
    rw [hpre]
    exact List.mem_append_right a List.mem_cons_self
  · intro pre post id he
    exact Mark.answered hpending he
  · intro σ send options frame cancelled s
    have hfits := fitContext_fits send options frame cancelled t.view s
    refine ⟨fun e he => ?_, fun hd => hfits.of_deferred hd⟩
    rw [he] at hfits
    exact hfits.of_error

/-- One complete exchange, an answer and a new question. -/
def sampleMessages : List Message :=
  [.userText (text "find it"), ⟨.assistant, [.toolUse (text "t1") (text "Read") (text "\x7b\x7d")],
    none⟩, ⟨.tool, [.toolResult (text "t1") (text "found") none false], none⟩,
    ⟨.assistant, [.text (text "done")], none⟩, .userText (text "next")]

def sampleSummary : Bytes :=
  text
    "Objective:\nfind it\nConstraints:\nNone\nDecisions:\nNone\nCompleted:\nfound\nPending:\nNone\n" ++
    text "References:\n1-4\n"

/-- A host that counts nine hundred tokens for each message. -/
def sampleOptions : ContextOptions :=
  { maxTokens := 4096
    summaryMaxBytes := 256
    countTokens := some fun request => UInt64.ofNat (900 * request.messages.length) }

def sampleFrame : Request := ⟨[], none, [], none, some 16, none, false, none, {}⟩

def sampleSend (_ : Request) (s : Unit) : Reply × Unit :=
    (.returns (.ok { blocks := [.text sampleSummary] }), s)

def sampleFit : Result Unit × ContextView × Unit :=
  fitContext sampleSend sampleOptions sampleFrame false ⟨{}, sampleMessages, false⟩ ()

theorem compaction_keeps_exchanges_sample :
    sampleFit.2.1.checkpoint.coveredSequence = 4 ∧ sampleFit.2.1.checkpoint.revision = 1 ∧
    ∃ dropped, sampleMessages = dropped ++ sampleFit.2.1.messages ∧
      ∀ pre post id, marks dropped = pre ++ Mark.opens id :: post → Mark.closes id ∈ post := by
  have hshape : Mark.Paired (marks sampleMessages) := by
    show Mark.Paired [.opens (text "t1"), .closes (text "t1")]
    exact (Mark.Paired.nil.append_opens (by simp [Mark.pending])).append_closes
      (by simp [Mark.pending, Mark.settle])
  have hrun : Relation.ReflTransGen Track.Step ⟨sampleMessages, ⟨{}, sampleMessages, false⟩⟩
      ⟨sampleMessages, sampleFit.2.1⟩ :=
    .single (.fit sampleSend sampleOptions sampleFrame false ())
  obtain ⟨⟨dropped, hall, -, hanswered⟩, -⟩ := compaction_keeps_exchanges hshape hrun
  exact ⟨by decide +kernel, by decide +kernel, dropped, hall, hanswered⟩

end Orangutan.Agent
