import Orangutan.Telegram.State

/-!
# The journal read back

What the reader makes of a written journal, and what is left of it after an operator retires the
pending entry.
-/

namespace Orangutan.Telegram

set_option autoImplicit false

open Orangutan.Core Orangutan.Core.Str Orangutan.Storage

theorem idxOf_hexDigit : ∀ n < 16, hexDigits.idxOf? (hexDigit n) = some n := by decide +kernel

theorem parseHexPairs_format (bytes : Bytes) :
    parseHexPairs (bytes.flatMap fun b => [hexDigit (b.toNat / 16), hexDigit (b.toNat % 16)]) =
      some bytes := by
  induction bytes with
  | nil => rfl
  | cons b bytes ih =>
    have hhigh := idxOf_hexDigit (b.toNat / 16) (by have := b.toNat_lt; omega)
    have hlow := idxOf_hexDigit (b.toNat % 16) (by omega)
    have hbyte : b.toNat / 16 * 16 + b.toNat % 16 = b.toNat := Nat.div_add_mod' b.toNat 16
    rw [List.flatMap_cons, List.cons_append, List.cons_append, List.nil_append, parseHexPairs,
      hhigh, hlow, ih]
    dsimp only
    rw [hbyte, UInt8.ofNat_toNat]

theorem parseTurnIdHex_format (id : TurnId) : parseTurnIdHex (formatTurnIdHex id) = .ok id := by
  unfold parseTurnIdHex formatTurnIdHex
  rw [parseHexPairs_format]
  dsimp only
  rw [dif_pos id.size]

theorem int64_eq {n : Int} (hlow : -2 ^ 63 ≤ n) (hhigh : n < 2 ^ 63) : int64 n = n := by
  unfold int64 Int.bmod
  dsimp only
  split <;> omega

theorem int64_range (n : Int) : -2 ^ 63 ≤ int64 n ∧ int64 n < 2 ^ 63 := by
  unfold int64 Int.bmod
  dsimp only
  split <;> omega

namespace Pending

/-- The update of the entry, as the reader takes it. -/
def updateId (p : Pending) : Int :=
  match p.update.member (text "update_id") with
  | some (.integer n) => int64 n
  | _ => 0

/-- What an entry of the host satisfies. -/
structure Valid (p : Pending) (nextUpdate : Int) : Prop where
  parsed : Value.Parsed p.update
  update : ∃ n, p.update.member (text "update_id") = some (.integer n)
  ordered : nextUpdate ≤ p.updateId
  parts : p.confirmedParts < 2 ^ 63

/-- The reader takes the entry: there is an update after it, and its task has an identity. -/
def Resumable (p : Pending) : Prop := p.updateId ≠ maxInt64 ∧ checkTask p.taskId = .ok ()

end Pending

section Entries

variable {p : Pending} {nextUpdate : Int}

theorem encodePending_update (p : Pending) :
    Value.atKey (encodePending p) "update" = .ok p.update := by
  unfold encodePending
  split <;> rfl

theorem encodePending_parts (p : Pending) :
    Value.atKey (encodePending p) "confirmed_parts" = .ok (.integer p.confirmedParts) := rfl

theorem encodePending_answer (p : Pending) :
    Value.atKey (encodePending p) "answer" = .ok ((p.answer.map SqlJson.text).getD .null) := rfl

theorem encodePending_inflight (p : Pending) :
    Value.atKey (encodePending p) "send_inflight" = .ok (.boolean p.sendInflight) := rfl

theorem encodePending_task (p : Pending) :
    (encodePending p).member (text "task_id") = if p.taskId = [] then none
      else some (.text p.taskId) := by
  unfold encodePending
  split <;> rfl

theorem decodePending_encode (h : p.Valid nextUpdate) :
    decodePending nextUpdate (encodePending p) =
      if p.updateId = maxInt64 then .error (.parsing "invalid Telegram pending delivery")
      else checkTask p.taskId >>= fun _ => .ok p := by
  obtain ⟨n, hn⟩ := h.update
  have hid : p.updateId = int64 n := by
    unfold Pending.updateId
    rw [hn]
  have hat : Value.atKey p.update "update_id" = .ok (.integer n) := by
    unfold Value.atKey
    rw [hn]
  have hordered := h.ordered
  have hparts := h.parts
  have hcount : int64 (p.confirmedParts : Int) = p.confirmedParts := int64_eq (by omega) (by omega)
  have hsize : ((p.confirmedParts : Int) % 2 ^ 64).toNat = p.confirmedParts := by omega
  unfold decodePending
  rw [encodePending_update, ok_bind, hat, ok_bind, encodePending_parts, ok_bind]
  dsimp only
  rw [hid] at hordered ⊢
  by_cases hmax : int64 n = maxInt64
  · rw [if_pos (.inr (.inl hmax)), if_pos hmax]
  · rw [if_neg (by rw [hcount]; omega), if_neg hmax, encodePending_answer, encodePending_inflight,
      encodePending_task, hsize]
    obtain ⟨update, answer, confirmedParts, sendInflight, taskId⟩ := p
    dsimp only
    cases answer <;> by_cases htask : taskId = []
    · subst htask
      rfl
    · rw [if_neg htask]
      rfl
    · subst htask
      rfl
    · rw [if_neg htask]
      rfl

theorem decodePending_iff (h : p.Valid nextUpdate) :
    decodePending nextUpdate (encodePending p) = .ok p ↔ p.Resumable := by
  rw [decodePending_encode h]
  unfold Pending.Resumable
  split
  · next hmax => exact ⟨fun h => (by cases h), fun h => absurd hmax h.1⟩
  · next hmax =>
    cases htask : checkTask p.taskId with
    | error e => exact ⟨fun h => (by cases h), fun h => (by cases h.2)⟩
    | ok => exact ⟨fun _ => ⟨hmax, rfl⟩, fun _ => rfl⟩

end Entries

/-- What a state of the host satisfies. -/
structure State.Valid (s : State) : Prop where
  session : isZeroTurnId s.session = false
  cursor : 0 ≤ s.nextUpdate ∧ s.nextUpdate < 2 ^ 63
  pending : ∀ p, s.pending = some p → p.Valid s.nextUpdate

section States

variable {s : State} {t : Bytes}

theorem decodeValue_encode (h : s.Valid) :
    decodeValue (encodeState s) = match s.pending with
      | none => .ok s
      | some p => decodePending s.nextUpdate (encodePending p) >>= fun entry =>
          .ok { s with pending := some entry } := by
  obtain ⟨bot, user, workspace, session, nextUpdate, pending⟩ := s
  obtain ⟨hsession, ⟨hlow, hhigh⟩, -⟩ := h
  dsimp only at hsession hlow hhigh
  have hnext : int64 nextUpdate = nextUpdate := int64_eq (by omega) hhigh
  have hat : ∀ key value, (encodeState ⟨bot, user, workspace, session, nextUpdate, pending⟩).member
    (text key) = some value →
      Value.atKey (encodeState ⟨bot, user, workspace, session, nextUpdate, pending⟩) key =
        .ok value := by
    intro key value hmember
    unfold Value.atKey
    rw [hmember]
  unfold decodeValue
  have hspelled : Value.getString (.text (formatTurnIdHex session)) =
    .ok (formatTurnIdHex session) := rfl
  rw [hat "session" (.text (formatTurnIdHex session)) rfl, ok_bind, hspelled, ok_bind,
    parseTurnIdHex_format]
  dsimp only
  rw [hsession, if_neg (by decide), hat "next_update" (.integer nextUpdate) rfl, ok_bind,
    hat "bot" (.text bot) rfl, hat "user" (.text user) rfl, hat "workspace" (.text workspace) rfl,
    hat "pending" ((pending.map encodePending).getD .null) rfl]
  change (if int64 nextUpdate < 0 then _ else _) = _
  rw [hnext, if_neg (by omega)]
  cases pending <;> rfl

theorem decodeValue_iff (h : s.Valid) :
    decodeValue (encodeState s) = .ok s ↔ ∀ p, s.pending = some p → p.Resumable := by
  rw [decodeValue_encode h]
  cases hpending : s.pending with
  | none => exact ⟨fun _ p hp => (by cases hp), fun _ => rfl⟩
  | some p =>
    have hiff := decodePending_iff (h.pending p hpending)
    constructor
    · intro hok q hq
      obtain rfl := Option.some.inj hq
      obtain ⟨entry, hentry, hsame⟩ := bind_eq_ok.mp hok
      have hpending' := congrArg State.pending (Except.ok.inj hsame)
      rw [hpending] at hpending'
      obtain rfl := Option.some.inj hpending'
      exact hiff.mp hentry
    · intro hresumable
      dsimp only
      rw [hiff.mpr (hresumable p rfl), ok_bind, ← hpending]

/-- The serializer's order of the keys. -/
theorem keys_sorted :
    [text "answer", text "confirmed_parts", text "send_inflight", text "update"].Pairwise (· < ·) ∧
    [text "answer", text "confirmed_parts", text "send_inflight", text "task_id",
      text "update"].Pairwise (· < ·) ∧
    [text "bot", text "next_update", text "pending", text "session", text "user",
      text "workspace"].Pairwise (· < ·) := by
  decide +kernel

theorem encodePending_parsed {p : Pending} {nextUpdate : Int} (h : p.Valid nextUpdate)
    (hdumps : Value.dumps (encodePending p) = true) : Value.Parsed (encodePending p) := by
  have hparts := h.parts
  obtain ⟨update, answer, confirmedParts, sendInflight, taskId⟩ := p
  have hanswer : Value.dumps ((answer.map SqlJson.text).getD .null) = true →
      Value.Parsed ((answer.map SqlJson.text).getD .null) := by
    cases answer with
    | none => exact fun _ => trivial
    | some answer => exact id
  have hcount : -2 ^ 63 ≤ (confirmedParts : Int) ∧ (confirmedParts : Int) < 2 ^ 64 := by
    dsimp only at hparts
    omega
  unfold encodePending at hdumps ⊢
  dsimp only at hdumps ⊢
  by_cases htask : taskId = []
  · rw [if_pos htask] at hdumps ⊢
    simp only [List.nil_append, List.cons_append, Value.dumps, Value.dumpsFields,
      Bool.and_eq_true] at hdumps
    obtain ⟨⟨hkey, hvalue⟩, -⟩ := hdumps
    exact ⟨keys_sorted.1, hkey, hanswer hvalue, by decide +kernel, hcount, by decide +kernel,
      trivial, by decide +kernel, h.parsed, trivial⟩
  · rw [if_neg htask] at hdumps ⊢
    simp only [List.nil_append, List.cons_append, Value.dumps, Value.dumpsFields,
      Bool.and_eq_true] at hdumps
    obtain ⟨⟨hkey, hvalue⟩, -, -, ⟨htaskKey, htaskValue⟩, -⟩ := hdumps
    exact ⟨keys_sorted.2.1, hkey, hanswer hvalue, by decide +kernel, hcount, by decide +kernel,
      trivial, htaskKey, htaskValue, by decide +kernel, h.parsed, trivial⟩

theorem encodeState_parsed (h : s.Valid) (hdumps : Value.dumps (encodeState s) = true) :
    Value.Parsed (encodeState s) := by
  obtain ⟨hlow, hhigh⟩ := h.cursor
  have hpending := h.pending
  obtain ⟨bot, user, workspace, session, nextUpdate, pending⟩ := s
  unfold encodeState at hdumps ⊢
  simp only [Value.dumps, Value.dumpsFields, Bool.and_eq_true] at hdumps
  dsimp only at hlow hhigh hpending hdumps ⊢
  obtain ⟨⟨hbotKey, hbot⟩, ⟨hnextKey, -⟩, ⟨hpendingKey, hentry⟩, ⟨hsessionKey, hsession⟩,
    ⟨huserKey, huser⟩, ⟨hworkspaceKey, hworkspace⟩, -⟩ := hdumps
  have hparsed : Value.Parsed ((pending.map encodePending).getD .null) := by
    cases pending with
    | none => trivial
    | some p => exact encodePending_parsed (hpending p rfl) hentry
  exact ⟨keys_sorted.2.2, hbotKey, hbot, hnextKey, ⟨by omega, by omega⟩, hpendingKey, hparsed,
    hsessionKey, hsession, huserKey, huser, hworkspaceKey, hworkspace, trivial⟩

theorem journalText_eq (ht : journalText s = some t) :
    Value.dumps (encodeState s) = true ∧ t = (encodeState s).pretty 0 ++ [0x0A] := by
  unfold journalText at ht
  split at ht
  · next hdumps => exact ⟨hdumps, (Option.some.inj ht).symm⟩
  · cases ht

/-- The reader takes the text of a state for the state, if it takes the pending entry. -/
theorem decodeState_iff (parser : JsonParser) (h : s.Valid) (ht : journalText s = some t) :
    decodeState parser t = .ok s ↔ ∀ p, s.pending = some p → p.Resumable := by
  obtain ⟨hdumps, rfl⟩ := journalText_eq ht
  unfold decodeState
  rw [parser.parse_pretty _ (encodeState_parsed h hdumps)]
  exact decodeValue_iff h

/-- The bytes of the journal. -/
def journalSize (s : State) : Nat := (encodeState s).size 0 + 1

theorem journalText_length (ht : journalText s = some t) : t.length = journalSize s := by
  obtain ⟨-, rfl⟩ := journalText_eq ht
  rw [List.length_append, Value.pretty_length]
  rfl

end States

theorem read_written {files : Files} {t : Bytes} (h : t.length ≤ maxJournalBytes) :
    Files.read (Function.update files stateName (some t)) stateName maxJournalBytes =
      .ok (some t) := by
  have hname : ¬ ((!validName stateName) = true ∨ maxJournalBytes = 0) := by decide +kernel
  unfold Files.read
  rw [if_neg hname, Function.update_self]
  dsimp only
  rw [if_neg (Nat.not_lt.mpr h)]

theorem read_refused {files : Files} {t : Bytes} (h : maxJournalBytes < t.length) :
    Files.read (Function.update files stateName (some t)) stateName maxJournalBytes =
      .error (.invalidArgument "application file exceeds byte limit") := by
  have hname : ¬ ((!validName stateName) = true ∨ maxJournalBytes = 0) := by decide +kernel
  unfold Files.read
  rw [if_neg hname, Function.update_self]
  dsimp only
  rw [if_pos h]

theorem validName_handled {middle : Bytes} (hlength : middle.length ≤ 100)
    (hbytes : ∀ b ∈ middle, b ≠ 0x2F ∧ b ≠ 0) :
    validName (text "handled-" ++ (middle ++ text ".json")) = true := by
  have hcontains : ∀ b : UInt8, b = 0x2F ∨ b = 0 →
      (text "handled-" ++ (middle ++ text ".json")).contains b = false := by
    intro b hb
    rw [Bool.eq_false_iff, ne_eq, List.contains_iff_mem, List.mem_append, List.mem_append]
    rintro (hmem | hmem | hmem)
    · rcases hb with rfl | rfl
      · exact absurd hmem (by decide +kernel)
      · exact absurd hmem (by decide +kernel)
    · rcases hb with rfl | rfl
      · exact (hbytes _ hmem).1 rfl
      · exact (hbytes _ hmem).2 rfl
    · rcases hb with rfl | rfl
      · exact absurd hmem (by decide +kernel)
      · exact absurd hmem (by decide +kernel)
  have hhead : ∃ rest, text "handled-" ++ (middle ++ text ".json") = 0x68 :: 0x61 :: rest :=
    ⟨_, rfl⟩
  have hlimit : (text "handled-" ++ (middle ++ text ".json")).length ≤ 128 := by
    rw [List.length_append, List.length_append]
    change 8 + (middle.length + 5) ≤ 128
    omega
  unfold validName
  rw [hcontains 0x2F (.inl rfl), hcontains 0 (.inr rfl)]
  obtain ⟨rest, hrest⟩ := hhead
  rw [hrest] at hlimit ⊢
  have hdot : 0x68 :: 0x61 :: rest ≠ text "." := fun h => by cases h
  have hdots : 0x68 :: 0x61 :: rest ≠ text ".." :=
    fun h => by injection h with h; exact absurd h (by decide)
  simp only [ne_eq, List.cons_ne_nil, not_false_eq_true, decide_true, hlimit, hdot, hdots,
    Bool.not_false, Bool.and_self]

theorem signedDecimal_bytes (n : Int) : ∀ b ∈ signedDecimal n, b ≠ 0x2F ∧ b ≠ 0 := by
  intro b hb
  have hnumber := (Value.isNumberByte_signedDecimal n b hb).1
  constructor <;> rintro rfl <;> exact absurd hnumber (by decide)

theorem signedDecimal_length {n : Int} (hlow : 0 ≤ n) (hhigh : n ≤ 2 ^ 63) :
    (signedDecimal n).length ≤ 19 := by
  obtain ⟨k, rfl⟩ := Int.eq_ofNat_of_zero_le hlow
  change (decimal k).length ≤ 19
  rw [decimal, List.length_map]
  exact (Nat.length_toDigits_le_iff (by decide) (by decide)).mpr (by omega)

theorem parseHexPairs_some {t bytes : Bytes} (h : parseHexPairs t = some bytes) :
    t.length = 2 * bytes.length ∧ ∀ b ∈ t, b ∈ hexDigits := by
  fun_induction parseHexPairs t generalizing bytes with
  | case1 =>
    cases h
    exact ⟨rfl, fun b hb => by cases hb⟩
  | case2 => cases h
  | case3 high low rest a b tail htail hb ha ih =>
    cases h
    obtain ⟨hlength, hmem⟩ := ih htail
    have hmemOf : ∀ {c : UInt8} {i : Nat}, hexDigits.idxOf? c = some i → c ∈ hexDigits := by
      intro c i hi
      by_contra hno
      rw [List.idxOf?_eq_none_iff.mpr hno] at hi
      cases hi
    refine ⟨by rw [List.length_cons, List.length_cons, hlength, List.length_cons]; omega,
      fun c hc => ?_⟩
    rcases List.mem_cons.mp hc with rfl | hc
    · exact hmemOf ha
    · rcases List.mem_cons.mp hc with rfl | hc
      · exact hmemOf hb
      · exact hmem c hc
  | case4 => cases h

/-- The archive of a resumable entry has a name that the directory takes. -/
theorem validName_archive {taskId : Bytes} {update : Int} (hlow : 0 ≤ update)
    (hhigh : update ≤ 2 ^ 63) (htask : checkTask taskId = .ok ()) :
    validName (archiveName taskId update) = true := by
  unfold archiveName
  split
  · exact validName_handled ((signedDecimal_length hlow hhigh).trans (by decide))
      (signedDecimal_bytes update)
  · next hne =>
    unfold checkTask parseTurnIdHex at htask
    rw [if_neg hne] at htask
    cases hparse : parseHexPairs taskId with
    | none =>
      rw [hparse] at htask
      cases htask
    | some bytes =>
      rw [hparse] at htask
      obtain ⟨hlength, hmem⟩ := parseHexPairs_some hparse
      dsimp only at htask
      split at htask
      · next hok =>
        split at hok
        · next hsixteen =>
          have hplain : ∀ b ∈ text "task-" ++ hexDigits, b ≠ 0x2F ∧ b ≠ 0 :=
            List.all_iff_forall_prop.mp (by decide +kernel)
          have hbytes : ∀ b ∈ text "task-" ++ taskId, b ≠ 0x2F ∧ b ≠ 0 := by
            intro b hb
            rcases List.mem_append.mp hb with hb | hb
            · exact hplain b (List.mem_append_left _ hb)
            · exact hplain b (List.mem_append_right _ (hmem b hb))
          have hshort : (text "task-" ++ taskId).length ≤ 100 := by
            rw [List.length_append, hlength, hsixteen]
            decide +kernel
          have hname := validName_handled hshort hbytes
          rwa [List.append_assoc] at hname
        · cases hok
      · cases htask

section Restart

variable {s : State} {p : Pending} {t : Bytes} {parser : JsonParser} {files : Files}

/-- The journal of a state can be read back. -/
structure Fits (s : State) : Prop where
  size : journalSize s ≤ maxJournalBytes
  resumable : ∀ p, s.pending = some p → p.Resumable

theorem retire_valid (h : s.Valid) (hp : s.pending = some p) (hresumable : p.Resumable) :
    (s.retire p.taskId p.updateId).Valid where
  session := h.session
  cursor := by
    obtain ⟨hlow, hhigh⟩ := h.cursor
    have hordered := (h.pending p hp).ordered
    have hmax := hresumable.1
    have hrange : p.updateId < 2 ^ 63 := by
      unfold Pending.updateId
      split
      · exact (int64_range _).2
      · decide
    unfold maxInt64 at hmax
    unfold State.retire
    dsimp only
    split <;> omega
  pending := fun q hq => by cases hq

/-- The journal around a cursor and an entry. -/
def frame (s : State) (next : Int) (entry : Value) : Value :=
  .object [(text "bot", .text s.bot), (text "next_update", .integer next), (text "pending", entry),
    (text "session", .text (formatTurnIdHex s.session)), (text "user", .text s.user),
      (text "workspace", .text s.workspace)]

theorem encodeState_frame (s : State) :
    encodeState s = frame s s.nextUpdate ((s.pending.map encodePending).getD .null) := rfl

theorem frame_size (s : State) (next : Int) (entry : Value) :
    (frame s next entry).size 0 = (frame s 0 .null).size 0 + (signedDecimal next).length +
      entry.size 2 - 5 := by
  have hnext : ∀ n : Int, Value.size 2 (.integer n) = (signedDecimal n).length := fun _ => rfl
  have hzero : (signedDecimal 0).length = 1 := by decide +kernel
  have hnull : Value.size 2 .null = 4 := rfl
  unfold frame
  rw [Value.size_object, Value.size_object]
  simp only [Value.sizeFields, Nat.zero_add, hnext, hzero, hnull]
  omega

/-- The entry takes more room than the cursor gains. -/
theorem retire_size (h : s.Valid) (hp : s.pending = some p) (hresumable : p.Resumable) :
    journalSize (s.retire p.taskId p.updateId) ≤ journalSize s := by
  obtain ⟨hlow, hhigh⟩ := (retire_valid h hp hresumable).cursor
  have hdigits := signedDecimal_length hlow (by omega)
  have hentry : 24 ≤ (encodePending p).size 2 := by
    unfold encodePending
    rw [List.cons_append, Value.size_object, Value.sizeFields, List.cons_append, Value.sizeFields]
    omega
  have hbefore := frame_size s s.nextUpdate (encodePending p)
  have hafter := frame_size s (s.retire p.taskId p.updateId).nextUpdate .null
  have hnull : Value.size 2 .null = 4 := rfl
  have hold : encodeState s = frame s s.nextUpdate (encodePending p) := by
    rw [encodeState_frame, hp]; rfl
  have hnew : encodeState (s.retire p.taskId p.updateId) =
    frame s (s.retire p.taskId p.updateId).nextUpdate .null := rfl
  unfold journalSize
  rw [hold, hnew, hbefore, hafter, hnull]
  omega

/-- An answer is in the journal with all its bytes. -/
theorem answer_size {answer : Bytes} (hp : s.pending = some p) (hanswer : p.answer = some answer) :
    answer.length < journalSize s := by
  have hescape := escape_length_ge answer
  have hentry : (Json.escape answer).length + 6 ≤ (encodePending p).size 2 := by
    unfold encodePending
    rw [List.cons_append, Value.size_object, Value.sizeFields, hanswer]
    have hvalue : Value.size (2 + 2) (.text answer) = (Json.escape answer).length + 2 := rfl
    rw [Option.map_some, Option.getD_some, hvalue]
    omega
  have hframe := frame_size s s.nextUpdate (encodePending p)
  have hstate : encodeState s = frame s s.nextUpdate (encodePending p) := by
    rw [encodeState_frame, hp]; rfl
  unfold journalSize
  rw [hstate, hframe]
  omega

theorem retire_dumps (hp : s.pending = some p) (hdumps : Value.dumps (encodeState s) = true) :
    Value.dumps (encodeState (s.retire p.taskId p.updateId)) = true := by
  unfold encodeState at hdumps ⊢
  simp only [Value.dumps, Value.dumpsFields, Bool.and_eq_true, hp] at hdumps
  obtain ⟨hbot, hnext, ⟨hkey, -⟩, hsession, huser, hworkspace, -⟩ := hdumps
  simp only [State.retire, Value.dumps, Value.dumpsFields, Bool.and_eq_true, Option.map_none,
    Option.getD_none]
  exact ⟨hbot, hnext, ⟨hkey, trivial⟩, hsession, huser, hworkspace, trivial⟩

theorem load_written (hvalid : s.Valid) (hfits : Fits s) (ht : journalText s = some t)
    (fresh : Result TurnId) :
    loadState parser (Function.update files stateName (some t)) s.user s.workspace fresh =
      if s.pending.isSome then .error
        (.of .conflict "state binding mismatch or unresolved pending delivery; inspect state.json")
      else .ok s := by
  have hlength : t.length ≤ maxJournalBytes := journalText_length ht ▸ hfits.size
  have hdecode := (decodeState_iff parser hvalid ht).mpr hfits.resumable
  unfold loadState
  rw [read_written hlength, ok_bind]
  dsimp only
  rw [hdecode, ok_bind]
  simp only [ne_eq, not_true_eq_false, false_or]

/-- A resumable entry is archived, and the journal without it is the next one. -/
theorem acknowledge_written (hvalid : s.Valid) (hfits : Fits s) (ht : journalText s = some t)
    (hp : s.pending = some p) :
    ∃ files' t', acknowledgePending parser (Function.update files stateName (some t)) p.updateId =
      .ok (Function.update files' stateName (some t')) ∧
        journalText (s.retire p.taskId p.updateId) = some t' := by
  have hlength : t.length ≤ maxJournalBytes := journalText_length ht ▸ hfits.size
  have hdecode := (decodeState_iff parser hvalid ht).mpr hfits.resumable
  have hresumable := hfits.resumable p hp
  obtain ⟨n, hn⟩ := (hvalid.pending p hp).update
  have hid : p.updateId = int64 n := by
    unfold Pending.updateId
    rw [hn]
  have hat : Value.atKey p.update "update_id" = .ok (.integer n) := by
    unfold Value.atKey
    rw [hn]
  have hname : validName (archiveName p.taskId p.updateId) = true := by
    obtain ⟨hlow, -⟩ := hvalid.cursor
    have hordered := (hvalid.pending p hp).ordered
    have hrange := (int64_range n).2
    exact validName_archive (by omega) (by omega) hresumable.2
  have hstate : validName stateName = true := by decide +kernel
  have hjournal : journalText (s.retire p.taskId p.updateId) =
      some ((encodeState (s.retire p.taskId p.updateId)).pretty 0 ++ [0x0A]) := by
    unfold journalText
    rw [if_pos (retire_dumps hp (journalText_eq ht).1)]
  refine ⟨Function.update (Function.update files stateName (some t))
    (archiveName p.taskId p.updateId) (some t), _, ?_, hjournal⟩
  unfold acknowledgePending
  rw [read_written hlength, ok_bind]
  dsimp only
  rw [hdecode, ok_bind, hp]
  dsimp only
  rw [hat, ok_bind]
  dsimp only
  rw [if_neg (fun hne => hne hid.symm), Files.write, if_pos hname, ok_bind, hjournal]
  dsimp only
  rw [Files.write, if_pos hstate]

theorem retire_fits (hvalid : s.Valid) (hfits : Fits s) (hp : s.pending = some p) :
    Fits (s.retire p.taskId p.updateId) where
  size := (retire_size hvalid hp (hfits.resumable p hp)).trans hfits.size
  resumable := fun q hq => by cases hq

/-- After the acknowledgment the host starts again. -/
theorem restart_acknowledged (hvalid : s.Valid) (hfits : Fits s) (ht : journalText s = some t)
    (hp : s.pending = some p) :
    ∃ files', acknowledgePending parser (Function.update files stateName (some t)) p.updateId =
      .ok files' ∧
      ∀ fresh, loadState parser files' s.user s.workspace fresh =
        .ok (s.retire p.taskId p.updateId) := by
  have hwritten : ∃ files' t',
    acknowledgePending parser (Function.update files stateName (some t)) p.updateId =
      .ok (Function.update files' stateName (some t')) ∧ _ := acknowledge_written hvalid hfits ht hp
  obtain ⟨files', t', hacknowledged, hjournal⟩ := hwritten
  have hretired := retire_valid hvalid hp (hfits.resumable p hp)
  exact ⟨_, hacknowledged,
    fun fresh => load_written hretired (retire_fits hvalid hfits hp) hjournal fresh⟩

end Restart

end Orangutan.Telegram
