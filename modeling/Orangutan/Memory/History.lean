import Orangutan.Agent.Coherence
import Orangutan.Memory.Commits
import Orangutan.Memory.MessageText
import Orangutan.Storage.SessionPages

/-!
# Loading a history in pages

A turn takes a snapshot of the number of messages and then asks the store for page after
page. Other calls may append meanwhile. What it delivers is a beginning of the rows of the
snapshot, in order, and all of them unless a row is too large, a row cannot be read, or the
context does not fit.
-/

namespace Orangutan.Memory.Session

set_option autoImplicit false

open Orangutan.Core Orangutan.Core.Str Orangutan.Storage Orangutan.Agent

variable (parser : JsonParser) (created : SessionMessageRecord → Bytes)

/-- The rows in order, up to the first that cannot be read. -/
def decodeRows : List SessionMessageRecord → Result (List Message)
  | [] => .ok []
  | row :: rest => do
    let message ← messageFromJson parser row (created row)
    let others ← decodeRows rest
    .ok (message :: others)

/-- `Store::load_after`. -/
def loadAfter (db : SessionDb) (key : SessionKey) (after through : Int) (maxBytes : Nat) :
    Result (List Message) := do
  let rows ← Storage.loadAfter db key after through 64 maxBytes
  decodeRows parser created rows

variable {parser created}

theorem decodeRows_length {rows : List SessionMessageRecord} {messages : List Message}
    (h : decodeRows parser created rows = .ok messages) : messages.length = rows.length := by
  induction rows generalizing messages with
  | nil => cases h; rfl
  | cons row rows ih =>
    obtain ⟨message, -, h⟩ := bind_eq_ok.mp h
    obtain ⟨others, hothers, h⟩ := bind_eq_ok.mp h
    cases h
    rw [List.length_cons, List.length_cons, ih hothers]

theorem decodeRows_take {rows : List SessionMessageRecord} {messages : List Message} (k : Nat)
    (h : decodeRows parser created rows = .ok messages) :
    decodeRows parser created (rows.take k) = .ok (messages.take k) := by
  induction rows generalizing messages k with
  | nil => cases h; simp [decodeRows]
  | cons row rows ih =>
    obtain ⟨message, hmessage, h⟩ := bind_eq_ok.mp h
    obtain ⟨others, hothers, h⟩ := bind_eq_ok.mp h
    cases h
    cases k with
    | zero => rfl
    | succ k => rw [List.take_succ_cons, decodeRows, hmessage, ok_bind, ih k hothers, ok_bind,
        List.take_succ_cons]

theorem decodeRows_append {rows more : List SessionMessageRecord} {messages others : List Message}
    (h : decodeRows parser created rows = .ok messages) (hmore : decodeRows parser created more =
      .ok others) :
    decodeRows parser created (rows ++ more) = .ok (messages ++ others) := by
  induction rows generalizing messages with
  | nil => cases h; exact hmore
  | cons row rows ih =>
    obtain ⟨message, hmessage, h⟩ := bind_eq_ok.mp h
    obtain ⟨rest, hrest, h⟩ := bind_eq_ok.mp h
    cases h
    rw [List.cons_append, decodeRows, hmessage, ok_bind, ih hrest, ok_bind, List.cons_append]

theorem decodeRows_error {rows : List SessionMessageRecord} {e : Error}
    (h : decodeRows parser created rows = .error e) :
    ∃ row ∈ rows, messageFromJson parser row (created row) = .error e := by
  induction rows with
  | nil => cases h
  | cons row rows ih =>
    rcases bind_eq_error.mp h with h | ⟨message, -, h⟩
    · exact ⟨row, List.mem_cons_self, h⟩
    · rcases bind_eq_error.mp h with h | ⟨others, -, h⟩
      · obtain ⟨bad, hbad, he⟩ := ih h
        exact ⟨bad, List.mem_cons_of_mem _ hbad, he⟩
      · cases h

theorem decodeRows_readable {rows : List SessionMessageRecord} {messages : List Message}
    (h : decodeRows parser created rows = .ok messages) :
    ∀ row ∈ rows, ∀ e, messageFromJson parser row (created row) ≠ .error e := by
  induction rows generalizing messages with
  | nil => exact fun row hrow => by cases hrow
  | cons first rows ih =>
    obtain ⟨message, hmessage, h⟩ := bind_eq_ok.mp h
    obtain ⟨others, hothers, -⟩ := bind_eq_ok.mp h
    intro row hrow e he
    rcases List.mem_cons.mp hrow with rfl | hrow
    · rw [hmessage] at he
      cases he
    · exact ih hothers row hrow e he

/-- The limits that a page may have. -/
def AcceptedLimit (maxBytes : Nat) : Prop := maxBytes ≠ 0 ∧ maxBytes ≤ 16 * 1024 * 1024

/-- A row that no page of so many bytes can bring. -/
def Undeliverable (parser : JsonParser) (created : SessionMessageRecord → Bytes) (maxBytes : Nat)
    (row : SessionMessageRecord) : Prop :=
  maxBytes < row.bytes ∨ ∃ e, messageFromJson parser row (created row) = .error e

/-- Calls that came after the snapshot only add rows behind its rows. -/
theorem rows_kept {reader : JsonReader} {db : SessionDb} {key : SessionKey} {s : Storage.Session}
    (h : Represents db key s) (calls : List StoreCall) :
    ∃ t, Represents (runCalls reader calls db) key t ∧
      db.rows key <+: (runCalls reader calls db).rows key := by
  obtain ⟨t, ht, hbefore⟩ := runCalls_represents reader calls h
  refine ⟨t, ht, ?_⟩
  rw [h.rows, ht.rows]
  obtain ⟨more, hmore⟩ := hbefore.messages
  rw [← hmore, List.mapIdx_append]
  exact List.prefix_append _ _

/-- The rows that a later call selects behind a position of a snapshot. -/
theorem between_snapshot {reader : JsonReader} {db : SessionDb} {key : SessionKey}
    {s : Storage.Session} (h : Represents db key s) (calls : List StoreCall) {after : Nat}
    (hafter : after ≤ (db.rows key).length) :
    (runCalls reader calls db).between key after (db.rows key).length =
      (db.rows key).drop after := by
  obtain ⟨t, ht, more, hmore⟩ := @rows_kept reader db key s h calls
  rw [between_numbered ht hafter, ← hmore, List.take_left]

/-- A page of the rows of a snapshot, read at any later time. -/
theorem loadAfter_page {reader : JsonReader} {db : SessionDb} {key : SessionKey}
    {s : Storage.Session} (h : Represents db key s) (calls : List StoreCall)
    (hkey : Storage.validateKey key = .ok ()) {after : Nat} (hafter : after < (db.rows key).length)
    (maxBytes : Nat) :
    (∃ e, loadAfter parser created (runCalls reader calls db) key after
      (db.rows key).length maxBytes = .error e ∧
        (¬ AcceptedLimit maxBytes ∨ ∃ row ∈ (db.rows key).drop after,
          Undeliverable parser created maxBytes row)) ∨
      ∃ k messages, 0 < k ∧ after + k ≤ (db.rows key).length ∧ AcceptedLimit maxBytes ∧
        decodeRows parser created (((db.rows key).drop after).take k) = .ok messages ∧
        (∀ row ∈ ((db.rows key).drop after).take k, row.bytes ≤ maxBytes) ∧
        loadAfter parser created (runCalls reader calls db) key after
          (db.rows key).length maxBytes = .ok messages := by
  rw [loadAfter, Storage.loadAfter, hkey, ok_bind, between_snapshot h calls hafter.le]
  by_cases hlimit : AcceptedLimit maxBytes
  swap
  · left
    rw [if_pos (by unfold AcceptedLimit at hlimit; omega), error_bind]
    exact ⟨_, rfl, .inl hlimit⟩
  rw [if_neg (by unfold AcceptedLimit at hlimit; omega)]
  have hnumbered : Numbered (after + 1) ((db.rows key).drop after) := by
    have hslice := h.numbered.slice after (db.rows key).length
    rwa [List.take_length] at hslice
  obtain ⟨row, rest, hrest⟩ : ∃ row rest, (db.rows key).drop after = row :: rest :=
    ⟨_, _, List.drop_eq_getElem_cons hafter⟩
  have hlength : rest.length + 1 = (db.rows key).length - after := by
    rw [← List.length_drop, hrest, List.length_cons]
  rw [hrest] at hnumbered ⊢
  have hfirst := hnumbered.of_prefix (List.take_prefix 64 _)
  rw [List.take_succ_cons] at hfirst ⊢
  rcases takeRows_first maxBytes hfirst with ⟨hlarge, hpage⟩ | ⟨page, hpage, hprefix, hfits⟩
  · left
    rw [hpage, error_bind]
    exact ⟨_, rfl, .inr ⟨row, List.mem_cons_self, .inl hlarge⟩⟩
  have hall : row :: page <+: row :: rest :=
    hprefix.trans (List.cons_prefix_cons.mpr ⟨rfl, List.take_prefix 63 rest⟩)
  rw [hpage, ok_bind]
  cases hdecode : decodeRows parser created (row :: page) with
  | error e =>
    obtain ⟨bad, hbad, he⟩ := decodeRows_error hdecode
    exact .inl ⟨e, rfl, .inr ⟨bad, hall.subset hbad, .inr ⟨e, he⟩⟩⟩
  | ok messages =>
    have htake := List.prefix_iff_eq_take.mp hall
    have hle := hall.length_le
    refine .inr ⟨(row :: page).length, messages, Nat.succ_pos _, ?_, hlimit, ?_, ?_, rfl⟩
    · rw [List.length_cons] at hle ⊢
      rw [List.length_cons] at hle
      omega
    · rw [← htake]
      exact hdecode
    · rw [← htake]
      exact hfits

/-- Only a valid key has rows. -/
theorem validateKey_of_rows {reader : JsonReader} (calls : List StoreCall) {key : SessionKey}
    (h : (runCalls reader calls {}).rows key ≠ []) : Storage.validateKey key = .ok () := by
  have hrun : ∀ (calls : List StoreCall) (db : SessionDb), db.rows key = [] →
    Storage.validateKey key ≠ .ok () →
      (runCalls reader calls db).rows key = [] := by
    intro calls
    induction calls with
    | nil => exact fun db hdb _ => hdb
    | cons call calls ih =>
      intro db hdb hkey
      apply ih _ _ hkey
      by_cases hcall : key = call.key
      swap
      · rw [(run_other hcall).rows, hdb]
      obtain ⟨e, he⟩ : ∃ e, Storage.validateKey key = .error e := by
        cases hvalid : Storage.validateKey key with
        | error e => exact ⟨e, rfl⟩
        | ok u => exact absurd hvalid hkey
      have hnone : ∀ fault messages commit,
          (appendMessages reader fault db key messages commit).2 = db := by
        intro fault messages commit
        rw [appendMessages, he, error_bind]
      subst hcall
      cases call with
      | append key messages fault =>
        exact (congrArg (SessionDb.rows · key) (hnone fault messages none)).trans hdb
      | appendAll key messages expected checkpoint fault =>
        show (appendAll reader fault db key messages expected checkpoint).2.rows key = []
        rcases appendAll_cases reader fault db key messages expected checkpoint with
          ⟨e', hrun⟩ | ⟨rows, commit, -, -, hrun⟩
        · rw [hrun]
          exact hdb
        · rw [hrun]
          exact (congrArg (SessionDb.rows · key) (hnone fault rows commit)).trans hdb
  by_contra hkey
  exact h (hrun calls {} rfl hkey)

section Loop

variable {env : TurnEnv} {loop : Loop} {inputs : RunTurnInputs} {tools : List ToolDef} {turn : Turn}

/-- The error is that of fitting the context. -/
def FitFailed (env : TurnEnv) (loop : Loop) (inputs : RunTurnInputs) (tools : List ToolDef)
    (e : Error) (after : Turn) :
    Prop :=
  ∃ before, fitView env loop inputs tools before = (.error e, after)

/-- A page is delivered up to a message after which the context does not fit. -/
theorem loadPage_delivers (page : List Message) (turn : Turn) :
    ∃ j, j ≤ page.length ∧
      stored (loadPage env loop inputs tools page turn).2.progress.log = stored turn.progress.log ++
        page.take j ∧
      ((loadPage env loop inputs tools page turn).1 = .ok () → j = page.length) ∧
      ∀ e, (loadPage env loop inputs tools page turn).1 = .error e →
        FitFailed env loop inputs tools e (loadPage env loop inputs tools page turn).2 := by
  induction page generalizing turn with
  | nil => exact ⟨0, le_refl _, (List.append_nil _).symm, fun _ => rfl, fun e h => (by cases h)⟩
  | cons message page ih =>
    have hstored := fitView_stored env loop inputs tools { turn with
      view := { turn.view with messages := turn.view.messages ++ [message] }
      progress := { turn.progress with log := turn.progress.log ++ [Entry.loaded message] } }
    have hone : stored (turn.progress.log ++ [Entry.loaded message]) = stored turn.progress.log ++
        [message] := by
      rw [stored_append]
      rfl
    dsimp only at hstored
    rw [loadPage]
    split
    · next e next hq =>
      rw [hq, hone] at hstored
      refine ⟨1, by simp, hstored, fun h => (by cases h), fun e' he => ?_⟩
      cases he
      exact ⟨_, hq⟩
    · next u next hq =>
      rw [hq, hone] at hstored
      obtain ⟨j, hj, hdelivered, hall, hfailed⟩ := ih next
      refine ⟨j + 1, by simpa using hj, ?_, fun h => by rw [List.length_cons, hall h], hfailed⟩
      rw [hdelivered, hstored, List.take_succ_cons, List.append_assoc]
      rfl

/-- What the loop has delivered when it stops behind a position of the snapshot. -/
structure Delivered (parser : JsonParser) (created : SessionMessageRecord → Bytes) (maxBytes : Nat)
    (rows : List SessionMessageRecord) (before : List Message) (result : Result Unit)
      (after : List Message)
    (fit : Error → Prop) : Prop where
  /-- The rows so far, each once and in order. -/
  delivered : ∃ k messages, k ≤ rows.length ∧
    decodeRows parser created (rows.take k) = .ok messages ∧
    after = before ++ messages
  /-- All of them, when nothing failed. -/
  complete : result = .ok () → (rows = [] ∨ AcceptedLimit maxBytes) ∧
    (∀ row ∈ rows, row.bytes ≤ maxBytes) ∧
    ∃ messages, decodeRows parser created rows = .ok messages ∧ after = before ++ messages
  /-- A failure has a reason. -/
  failed : ∀ e, result = .error e → (rows ≠ [] ∧ ¬ AcceptedLimit maxBytes) ∨
    (∃ row ∈ rows, Undeliverable parser created maxBytes row) ∨ fit e

section Delivered

variable {maxBytes : Nat} {rows more : List SessionMessageRecord} {before after messages :
  List Message}
  {result : Result Unit} {fit : Error → Prop}

theorem delivered_nil : Delivered parser created maxBytes [] before (.ok ()) before fit where
  delivered := ⟨0, [], le_refl _, rfl, (List.append_nil _).symm⟩
  complete _ := ⟨.inl rfl, fun row h => (by cases h), [], rfl, (List.append_nil _).symm⟩
  failed e h := by cases h

/-- Nothing of the next page was delivered. -/
theorem delivered_refused {e : Error} (h : (rows ≠ [] ∧ ¬ AcceptedLimit maxBytes) ∨
    ∃ row ∈ rows, Undeliverable parser created maxBytes row) :
    Delivered parser created maxBytes rows before (.error e) before fit where
  delivered := ⟨0, [], Nat.zero_le _, rfl, (List.append_nil _).symm⟩
  complete h := by cases h
  failed e' _ := h.imp_right .inl

/-- The context did not fit after some messages of a page. -/
theorem delivered_unfit {e : Error} {j : Nat}
    (hdecode : decodeRows parser created rows = .ok messages) (hj : j ≤ rows.length)
    (hafter : after = before ++ messages.take j) (hfit : fit e) :
    Delivered parser created maxBytes (rows ++ more) before (.error e) after fit where
  delivered := by
    refine ⟨j, messages.take j, by rw [List.length_append]; omega, ?_, hafter⟩
    rw [List.take_append_of_le_length hj]
    exact decodeRows_take j hdecode
  complete h := by cases h
  failed e' h := by
    cases h
    exact .inr (.inr hfit)

/-- A whole page was delivered before the others. -/
theorem Delivered.page
    (h : Delivered parser created maxBytes more (before ++ messages) result after fit)
    (hdecode : decodeRows parser created rows = .ok messages)
    (hfits : ∀ row ∈ rows, row.bytes ≤ maxBytes) (hlimit : AcceptedLimit maxBytes) :
    Delivered parser created maxBytes (rows ++ more) before result after fit where
  delivered := by
    obtain ⟨k, others, hk, hothers, hafter⟩ := h.delivered
    refine ⟨rows.length + k, messages ++ others, by rw [List.length_append]; omega, ?_, ?_⟩
    · rw [List.take_length_add_append]
      exact decodeRows_append hdecode hothers
    · rw [hafter, List.append_assoc]
  complete hok := by
    obtain ⟨-, hmore, others, hothers, hafter⟩ := h.complete hok
    refine ⟨.inr hlimit, fun row hrow => ?_, messages ++ others,
      decodeRows_append hdecode hothers, ?_⟩
    · exact (List.mem_append.mp hrow).elim (hfits row) (hmore row)
    · rw [hafter, List.append_assoc]
  failed e he := by
    rcases h.failed e he with ⟨-, hnot⟩ | ⟨row, hrow, hbad⟩ | hfit
    · exact absurd hlimit hnot
    · exact .inr (.inl ⟨row, List.mem_append_right _ hrow, hbad⟩)
    · exact .inr (.inr hfit)

end Delivered

theorem loadHistory_delivers {reader : JsonReader} {db : SessionDb} {key : SessionKey}
    {s : Storage.Session} {later : Nat → List StoreCall} {maxBytes : Nat} (h : Represents db key s)
    (hkey : db.rows key ≠ [] → Storage.validateKey key = .ok ())
    (henv : ∀ tick (after : Nat), env.loadAfter tick after =
      loadAfter parser created (runCalls reader (later tick) db) key after
        (db.rows key).length maxBytes)
    (hend : inputs.historyEnd = (db.rows key).length) (hloader : inputs.historyLoader = true)
    {fuel after : Nat} (hafter : after ≤ (db.rows key).length)
      (hfuel : (db.rows key).length - after ≤ fuel) :
    Delivered parser created maxBytes ((db.rows key).drop after) (stored turn.progress.log)
      (loadHistory env loop inputs tools fuel after turn).1
      (stored (loadHistory env loop inputs tools fuel after turn).2.progress.log)
      (fun e => FitFailed env loop inputs tools e
        (loadHistory env loop inputs tools fuel after turn).2) := by
  induction fuel generalizing after turn with
  | zero =>
    rw [List.drop_eq_nil_of_le (by omega), loadHistory]
    exact delivered_nil
  | succ fuel ih =>
    rw [loadHistory]
    by_cases hmore : after < (db.rows key).length
    swap
    · rw [List.drop_eq_nil_of_le (by omega), if_neg (by omega)]
      exact delivered_nil
    have hne : (db.rows key).drop after ≠ [] := by
      intro hnil
      have := List.drop_eq_nil_iff.mp hnil
      omega
    have hrows : db.rows key ≠ [] := fun hnil => by rw [hnil] at hmore; cases hmore
    rw [if_pos (by omega), hloader, Bool.not_true, if_neg Bool.false_ne_true, henv]
    dsimp only
    rcases loadAfter_page h (later turn.progress.tick) (hkey hrows) hmore maxBytes with
      ⟨e, hpage, hbad⟩ | ⟨k, messages, hpos, hk, hlimit, hdecode, hfits, hpage⟩
    · rw [hpage]
      exact delivered_refused (hbad.imp_left fun hnot => ⟨hne, hnot⟩)
    have htaken : (((db.rows key).drop after).take k).length = k := by
      rw [List.length_take, List.length_drop]
      omega
    have hlength : messages.length = k := (decodeRows_length hdecode).trans htaken
    have hguard : ¬ (messages.isEmpty || decide ((inputs.historyEnd - (after : Int)).toNat <
        messages.length)) = true := by
      rw [hend, hlength, Bool.or_eq_true, not_or, List.isEmpty_iff, decide_eq_true_eq]
      refine ⟨fun hnil => ?_, by omega⟩
      rw [hnil] at hlength
      exact hpos.ne hlength
    have hsplit : (db.rows key).drop after =
        ((db.rows key).drop after).take k ++ (db.rows key).drop (after + k) := by
      rw [← List.drop_drop, List.take_append_drop]
    rw [hpage]
    dsimp only
    rw [if_neg hguard]
    obtain ⟨j, hj, hdelivered, hall, hfailed⟩ := @loadPage_delivers env loop inputs tools messages
      { turn with progress := { turn.progress with tick := turn.progress.tick + 1 } }
    split
    · next e next hq =>
      rw [hq] at hdelivered hfailed
      rw [hsplit]
      exact delivered_unfit hdecode (by omega) hdelivered (hfailed e rfl)
    · next u next hq =>
      rw [hq] at hdelivered hall
      have hj : j = messages.length := hall rfl
      rw [hj, List.take_length] at hdelivered
      dsimp only at hdelivered
      have hrest := @ih next (after + k) (by omega) (by omega)
      rw [hdelivered] at hrest
      have hnext : (after : Int) + (messages.length : Int) = ((after + k : Nat) : Int) := by
        rw [hlength]
        push_cast
        rfl
      rw [hsplit, hnext]
      exact hrest.page hdecode hfits hlimit

/-- The loop over any reachable session, while other calls append. It starts with as many
steps as there are messages to load. -/
theorem history_paging (parser : JsonParser) (created : SessionMessageRecord → Bytes)
    (reader : JsonReader) (earlier : List StoreCall) (later : Nat → List StoreCall)
    (key : SessionKey) (maxBytes c : Nat) (env : TurnEnv) (loop : Loop) (inputs : RunTurnInputs)
    (tools : List ToolDef) (turn : Turn) :
    let db := runCalls reader earlier {}
    let rows := db.rows key
    let result := loadHistory env loop inputs tools (rows.length - c) c turn
    c ≤ rows.length →
    (∀ tick (after : Nat), env.loadAfter tick after =
      loadAfter parser created (runCalls reader (later tick) db) key after rows.length maxBytes) →
    inputs.historyEnd = rows.length → inputs.historyLoader = true →
      rows.map (·.sequence) = List.range' 1 rows.length ∧
      (∃ k messages, k ≤ rows.length - c ∧ decodeRows parser created ((rows.drop c).take k) =
        .ok messages ∧
        stored result.2.progress.log = stored turn.progress.log ++ messages) ∧
      (result.1 = .ok () → ∃ messages, decodeRows parser created (rows.drop c) = .ok messages ∧
        stored result.2.progress.log = stored turn.progress.log ++ messages) ∧
      ((∃ e, result.1 = .error e) ↔
        (c < rows.length ∧ ¬ AcceptedLimit maxBytes) ∨
          (∃ row ∈ rows.drop c, Undeliverable parser created maxBytes row) ∨
          ∃ e, result.1 = .error e ∧ FitFailed env loop inputs tools e result.2) := by
  intro db rows result hc henv hend hloader
  obtain ⟨s, hs, -⟩ := runCalls_represents reader earlier (represents_empty key)
  have h : Delivered parser created maxBytes (rows.drop c) (stored turn.progress.log) result.1
      (stored result.2.progress.log) (fun e => FitFailed env loop inputs tools e result.2) :=
    loadHistory_delivers hs (validateKey_of_rows earlier) henv hend hloader hc (le_refl _)
  have hnonempty : rows.drop c ≠ [] ↔ c < rows.length := by
    rw [ne_eq, List.drop_eq_nil_iff, Nat.not_le]
  refine ⟨hs.numbered, ?_, fun hok => (h.complete hok).2.2, ?_, ?_⟩
  · obtain ⟨k, messages, hk, hdecode, hstored⟩ := h.delivered
    exact ⟨k, messages, by rwa [List.length_drop] at hk, hdecode, hstored⟩
  · rintro ⟨e, he⟩
    rcases h.failed e he with hlimit | hbad | hfit
    · exact .inl (hlimit.imp_left hnonempty.mp)
    · exact .inr (.inl hbad)
    · exact .inr (.inr ⟨e, he, hfit⟩)
  · intro hreason
    cases hresult : result.1 with
    | error e => exact ⟨e, rfl⟩
    | ok u =>
      obtain ⟨hlimit, hfits, messages, hdecode, -⟩ := h.complete hresult
      rcases hreason with ⟨hmore, hnot⟩ | ⟨row, hrow, hlarge | ⟨e, he⟩⟩ | ⟨e, he, -⟩
      · exact absurd (hlimit.resolve_left (hnonempty.mpr hmore)) hnot
      · exact absurd (hfits row hrow) (Nat.not_le.mpr hlarge)
      · exact absurd he (decodeRows_readable hdecode row hrow e)
      · rw [hresult] at he
        cases he

-- Two stored messages, and a third that another call appends while they are loaded.
def pagedCalls : List StoreCall :=
  [.appendAll sampleKey [.userText (text "plan"), .userText (text "start")] none {} fun _ => none]

def pagedDb : SessionDb := runCalls checkpointReader pagedCalls {}

def lateCalls : List StoreCall :=
    [.appendAll sampleKey [.userText (text "late")] none {} fun _ => none]

def pagedEnv (maxBytes : Nat) : TurnEnv :=
  { Sample.env with
    loadAfter := fun _ after => loadAfter serializedParser (fun _ => sampleTime.text)
      (runCalls checkpointReader lateCalls pagedDb) sampleKey after 2 maxBytes }

def pagedInputs : RunTurnInputs := { Sample.inputs with historyEnd := 2 }

def pagedRun (maxBytes : Nat) : Result Unit × Turn :=
  loadHistory (pagedEnv maxBytes) Sample.loop pagedInputs [] 2 0 (startTurn Sample.loop pagedInputs)

theorem pagedDb_length : (pagedDb.rows sampleKey).length = 2 := by decide +kernel

theorem history_paging_late :
    ((pagedDb.rows sampleKey).map (·.sequence) = List.range' 1 2 ∧
      (stored (pagedRun 100).2.progress.log).length = 2) ∧
      ∃ k messages, k ≤ 2 - 0 ∧
        decodeRows serializedParser
          (fun _ => sampleTime.text) (((pagedDb.rows sampleKey).drop 0).take k) = .ok messages ∧
        stored (pagedRun 100).2.progress.log =
          stored (startTurn Sample.loop pagedInputs).progress.log ++ messages := by
  have h := history_paging serializedParser (fun _ => sampleTime.text) checkpointReader pagedCalls
    (fun _ => lateCalls)
    sampleKey 100 0 (pagedEnv 100) Sample.loop pagedInputs [] (startTurn Sample.loop pagedInputs)
      (Nat.zero_le _)
    (fun _ after => congrArg (fun n : Nat => loadAfter serializedParser (fun _ => sampleTime.text)
      (runCalls checkpointReader lateCalls pagedDb) sampleKey after n 100) pagedDb_length.symm)
    (congrArg Nat.cast pagedDb_length.symm) rfl
  have hlength : (runCalls checkpointReader pagedCalls {}).rows sampleKey =
    pagedDb.rows sampleKey := rfl
  rw [hlength, pagedDb_length] at h
  exact ⟨⟨h.1, by decide +kernel⟩, h.2.1⟩

/-- A page limit above 16 MiB is refused, although every row is small and can be read. -/
theorem history_refused :
    ((pagedDb.rows sampleKey).all fun row => decide (row.bytes ≤ 16 * 1024 * 1024 + 1) &&
      (messageFromJson serializedParser row sampleTime.text).toOption.isSome) = true ∧
    (pagedRun (16 * 1024 * 1024 + 1)).1 =
      .error (.invalidArgument "invalid conversation tail limit") := by
  decide +kernel

end Loop

end Orangutan.Memory.Session
