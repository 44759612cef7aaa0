import Orangutan.Bootstrap.StoredResults

/-!
# Result pages

`BackgroundTasks::get` shows a window of the stored result and says where the next one starts.
A reader that follows these offsets reads the whole result, and a window that would split a code
point is refused.
-/

namespace Orangutan.Bootstrap

set_option autoImplicit false

open Orangutan.Core Orangutan.Core.Str Orangutan.Lib Orangutan.Tool Relation

theorem continuation_inRange (b : UInt8) : (b &&& 0xC0 == 0x80) = inRange b (0x80, 0xBF) := by
  have hall : ∀ n : Fin 256,
      ((UInt8.ofNat n.val) &&& 0xC0 == 0x80) = inRange (UInt8.ofNat n.val) (0x80, 0xBF) := by
    decide +kernel
  have hb := hall ⟨b.toNat, b.toNat_lt⟩
  rwa [UInt8.ofNat_toNat] at hb

/-- The range of a first continuation byte is part of the common one. -/
theorem inRange_of_first {lead b : UInt8} (h : inRange b (firstContinuationRange lead) = true) :
    inRange b (0x80, 0xBF) = true := by
  rw [inRange_first] at h
  have hwide : 0x80 ≤ b.toNat ∧ b.toNat ≤ 0xBF := by split_ifs at h <;> omega
  exact (inRange_nat b (0x80, 0xBF)).mpr hwide

/-- Behind its opening byte a sequence holds continuation bytes only. -/
theorem interior_of_sequence {s : Bytes} (h : Sequence s) {i : Nat} (hpos : 0 < i)
    (hlt : i < s.length) (u : Bytes) :
    interiorOffset (s ++ u) i = true := by
  obtain ⟨j, rfl⟩ := Nat.exists_eq_succ_of_ne_zero hpos.ne'
  unfold interiorOffset
  rw [List.getElem?_append_left hlt]
  cases h with
  | one hl => simp at hlt
  | two hl h₁ =>
    obtain rfl : j = 0 := by simpa using hlt
    simp [continuation_inRange, inRange_of_first h₁]
  | three hl h₁ h₂ =>
    have hj : j = 0 ∨ j = 1 := by simp at hlt; omega
    rcases hj with rfl | rfl
    · simp [continuation_inRange, inRange_of_first h₁]
    · simp [continuation_inRange, h₂]
  | four hl h₁ h₂ h₃ =>
    have hj : j = 0 ∨ j = 1 ∨ j = 2 := by simp at hlt; omega
    rcases hj with rfl | rfl | rfl
    · simp [continuation_inRange, inRange_of_first h₁]
    · simp [continuation_inRange, h₂]
    · simp [continuation_inRange, h₃]

/-- An offset that is not inside a code point splits the text into two. -/
theorem isValidUtf8_split {t : Bytes} (ht : isValidUtf8 t = true) {i : Nat} (hi : i ≤ t.length)
    (hedge : interiorOffset t i = false) : isValidUtf8 (t.take i) = true ∧
      isValidUtf8 (t.drop i) = true := by
  by_cases hzero : i = 0
  · rw [hzero]
    exact ⟨rfl, ht⟩
  · have hne : t ≠ [] := by
      rintro rfl
      exact hzero (Nat.le_zero.mp hi)
    obtain ⟨s, u, rfl, hs, hu⟩ := exists_sequence ht hne
    by_cases hin : i < s.length
    · rw [interior_of_sequence hs (Nat.pos_of_ne_zero hzero) hin u] at hedge
      cases hedge
    · have hshorter : u.length < (s ++ u).length := by
        rw [List.length_append]
        cases hs <;> simp
      have hrest : interiorOffset u (i - s.length) = false := by
        unfold interiorOffset at hedge ⊢
        rwa [List.getElem?_append_right (Nat.le_of_not_lt hin)] at hedge
      obtain ⟨htake, hdrop⟩ :=
        isValidUtf8_split hu (i := i - s.length) (by rw [List.length_append] at hi; omega) hrest
      rw [List.take_append, List.drop_append, List.take_of_length_le (Nat.le_of_not_lt hin),
        List.drop_of_length_le (Nat.le_of_not_lt hin), List.nil_append, hs.valid]
      exact ⟨htake, hdrop⟩
termination_by t.length

/-- The opening byte of a text is no continuation byte. -/
theorem interior_zero {t : Bytes} (ht : isValidUtf8 t = true) : interiorOffset t 0 = false := by
  cases t with
  | nil => rfl
  | cons b rest =>
    obtain ⟨hlead, -, -, -⟩ := (isValidUtf8_cons b rest).mp ht
    by_contra hinside
    have hcontinues : inRange b (0x80, 0xBF) = true := by
      rw [← continuation_inRange]
      simpa [interiorOffset] using hinside
    have hrange : 0x80 ≤ b.toNat ∧ b.toNat ≤ 0xBF := (inRange_nat b (0x80, 0xBF)).mp hcontinues
    rw [leadLength_nat, if_neg (by omega), if_pos (by omega)] at hlead
    exact hlead rfl

theorem interior_of_drop {t : Bytes} {i : Nat} (h : isValidUtf8 (t.drop i) = true) :
    interiorOffset t i = false := by
  have hzero := interior_zero h
  unfold interiorOffset at hzero ⊢
  rwa [List.getElem?_drop, Nat.add_zero] at hzero

/-- A window that does not reach the end of the next code point is empty. -/
theorem truncateToCodePoint_narrow {point rest : Bytes} (hpoint : Sequence point)
    (hvalid : isValidUtf8 (point ++ rest) = true) {maxBytes : Nat}
      (hnarrow : maxBytes < point.length) :
    truncateToCodePoint (point ++ rest) maxBytes = [] := by
  have hlongest := truncateToCodePoint_longest hvalid maxBytes
  by_contra hne
  cases point with
  | nil => cases hnarrow
  | cons b tail =>
    have hlength : leadLength b = (b :: tail).length := by
      cases hpoint <;> simp [*]
    obtain ⟨hlong, -⟩ := prefix_cons hlongest.starts hlongest.valid hne
    have hfits := hlongest.fits
    omega

namespace State

variable {s : State} {owner : TaskOwner} {id : Bytes} {r : JobRef} {offset maxBytes : Nat}

/-- The page of a window that is not refused. -/
def pageOf (job : Job) (offset maxBytes : Nat) : TaskSnapshot :=
  let window := truncateToCodePoint (job.result.drop offset) maxBytes
  { job.snapshot with
    resultOffset := offset
    result := window
    nextOffset := if offset + window.length < job.result.length then some (offset + window.length)
      else none }

/-- The windows `get` refuses. -/
def refusesWindow (result : Bytes) (offset maxBytes : Nat) : Bool :=
  maxBytes == 0 || decide (16384 < maxBytes) || decide (result.length < offset) ||
    interiorOffset result offset ||
    ((truncateToCodePoint (result.drop offset) maxBytes).isEmpty && decide (offset < result.length))

theorem get_refused (hfind : s.prune.find owner id = some r)
    (h : refusesWindow (s.job r).result offset maxBytes = true) : ∃ e,
      (s.get owner id offset maxBytes).1 = .error e := by
  unfold refusesWindow at h
  unfold get
  dsimp only
  rw [hfind]
  dsimp only
  rw [job_prune]
  split
  · exact ⟨_, rfl⟩
  · next hwindow =>
    rw [Bool.eq_false_iff.mpr hwindow, Bool.false_or] at h
    rw [if_pos h]
    exact ⟨_, rfl⟩

theorem get_accepted (hfind : s.prune.find owner id = some r)
    (h : refusesWindow (s.job r).result offset maxBytes = false) :
    (s.get owner id offset maxBytes).1 = .ok (pageOf (s.job r) offset maxBytes) := by
  unfold refusesWindow at h
  obtain ⟨hwindow, hsome⟩ := Bool.or_eq_false_iff.mp h
  unfold get
  dsimp only
  rw [hfind]
  dsimp only
  rw [job_prune]
  rw [if_neg (Bool.eq_false_iff.mp hwindow), if_neg (Bool.eq_false_iff.mp hsome)]
  rfl

/-- A page of an unfinished result is not empty. -/
theorem get_ne_nil {page : TaskSnapshot} (hfind : s.prune.find owner id = some r)
    (hpage : (s.get owner id offset maxBytes).1 = .ok page)
      (hmore : offset < (s.job r).result.length) :
    page.result ≠ [] := by
  cases hrefuses : refusesWindow (s.job r).result offset maxBytes with
  | true =>
    obtain ⟨e, he⟩ := get_refused hfind hrefuses
    rw [hpage] at he
    cases he
  | false =>
    rw [get_accepted hfind hrefuses] at hpage
    obtain rfl := Except.ok.inj hpage
    obtain ⟨-, hsome⟩ := Bool.or_eq_false_iff.mp hrefuses
    intro hnone
    have hwindow : truncateToCodePoint ((s.job r).result.drop offset) maxBytes = [] := hnone
    rw [hwindow] at hsome
    simp at hsome
    omega

end State

/-- A reader of one result: the state its requests meet and the window each of them asks for. -/
structure Reader where
  owner : TaskOwner
  id : Bytes
  states : Nat → State
  maxBytes : Nat → Nat

namespace Reader

def page (q : Reader) (k offset : Nat) : Result TaskSnapshot :=
    ((q.states k).get q.owner q.id offset (q.maxBytes k)).1

/-- The offset of request `k`; nothing after a page without a next offset or a refusal. -/
def offset (q : Reader) : Nat → Option Nat
  | 0 => some 0
  | k + 1 =>
    match q.offset k with
    | none => none
    | some o =>
      match q.page k o with
      | .ok page => page.nextOffset
      | .error _ => none

/-- What request `k` shows. -/
def shown (q : Reader) (k : Nat) : Bytes :=
  match q.offset k with
  | none => []
  | some o =>
    match q.page k o with
    | .ok page => page.result
    | .error _ => []

/-- The requests end, each of them is answered with well-formed text behind the one before, and
the answers are the result. -/
structure Delivers (q : Reader) (result : Bytes) (count : Nat) : Prop where
  ends : q.offset count = none
  answered : ∀ k < count, ∃ o page, q.offset k = some o ∧ q.page k o = .ok page ∧
    page.resultOffset = o ∧
    isValidUtf8 page.result = true
  increasing : ∀ i j o o', i < j → q.offset i = some o → q.offset j = some o' → o < o'
  whole : (List.range count).flatMap q.shown = result

/-- Every request meets the job with this result and asks for a window of the documented size. -/
structure Meets (q : Reader) (r : JobRef) (result : Bytes) : Prop where
  found : ∀ k, (q.states k).prune.find q.owner q.id = some r
  same : ∀ k, ((q.states k).job r).result = result
  size : ∀ k, 4 ≤ q.maxBytes k ∧ q.maxBytes k ≤ 16384

variable {q : Reader} {r : JobRef} {result : Bytes}

/-- One request at an offset that is not inside a code point. -/
theorem Meets.step (h : q.Meets r result) (hvalid : isValidUtf8 result = true) {k o : Nat}
    (ho : o ≤ result.length) (hedge : interiorOffset result o = false) :
    ∃ page, q.page k o = .ok page ∧ page.resultOffset = o ∧ isValidUtf8 page.result = true ∧
      result.drop o = page.result ++ result.drop (o + page.result.length) ∧
      o + page.result.length ≤ result.length ∧
        interiorOffset result (o + page.result.length) = false ∧
      (o < result.length → page.result ≠ []) ∧
      page.nextOffset = if o + page.result.length < result.length then some (o + page.result.length)
        else none := by
  obtain ⟨-, hdrop⟩ := isValidUtf8_split hvalid ho hedge
  have hsize := h.size k
  have hcut := truncateToCodePoint_longest hdrop (q.maxBytes k)
  have hsome : o < result.length → truncateToCodePoint (result.drop o) (q.maxBytes k) ≠ [] := by
    intro hmore
    refine truncateToCodePoint_ne_nil hdrop ?_ hsize.1
    rw [ne_eq, List.drop_eq_nil_iff]
    omega
  have haccepted : State.refusesWindow ((q.states k).job r).result o (q.maxBytes k) = false := by
    rw [h.same]
    unfold State.refusesWindow
    simp only [Bool.or_eq_false_iff, Bool.and_eq_false_iff, beq_eq_false_iff_ne,
      decide_eq_false_iff_not]
    refine ⟨⟨⟨⟨by omega, by omega⟩, by omega⟩, hedge⟩, ?_⟩
    by_cases hmore : o < result.length
    · exact .inl (by simpa using hsome hmore)
    · exact .inr hmore
  have hpage := State.get_accepted (h.found k) haccepted
  unfold State.pageOf at hpage
  rw [h.same] at hpage
  generalize truncateToCodePoint (result.drop o) (q.maxBytes k) = window at hcut hsome hpage
  obtain ⟨rest, hrest⟩ := hcut.starts
  have hlength : window.length + rest.length = result.length - o := by
    rw [← List.length_append, hrest, List.length_drop]
  have hnext : result.drop (o + window.length) = rest := by
    rw [← List.drop_drop, ← hrest, List.drop_left]
  refine ⟨_, hpage, rfl, hcut.valid, ?_, ?_, ?_, hsome, rfl⟩
  · dsimp only
    rw [hnext, hrest]
  · dsimp only
    omega
  · refine interior_of_drop ?_
    dsimp only
    rw [hnext]
    rw [← hrest, isValidUtf8_append hcut.valid] at hdrop
    exact hdrop

/-- The requests from an offset that is not inside a code point on. -/
theorem Meets.run (h : q.Meets r result) (hvalid : isValidUtf8 result = true) {k o : Nat}
    (hk : q.offset k = some o) (ho : o ≤ result.length) (hedge : interiorOffset result o = false) :
    ∃ count, q.offset (k + count) = none ∧
      (∀ i < count, ∃ o page, q.offset (k + i) = some o ∧ q.page (k + i) o = .ok page ∧
        page.resultOffset = o ∧
        isValidUtf8 page.result = true ∧ ∀ o', q.offset (k + i + 1) = some o' → o < o') ∧
      (List.range count).flatMap (fun i => q.shown (k + i)) = result.drop o := by
  obtain ⟨page, hpage, hoffset, hutf8, hdrop, hle, hedge', hsome, hnext⟩ :=
    h.step hvalid (k := k) ho hedge
  have hafter : q.offset (k + 1) = page.nextOffset := by
    rw [offset, hk]
    simp only [hpage]
  have hshown : q.shown k = page.result := by
    rw [shown, hk]
    simp only [hpage]
  by_cases hmore : o + page.result.length < result.length
  · rw [if_pos hmore] at hnext
    have hpos : 0 < page.result.length := List.length_pos_iff.mpr (hsome (by omega))
    obtain ⟨count, hend, hanswers, hwhole⟩ := Meets.run h hvalid (hafter.trans hnext) hle hedge'
    refine ⟨count + 1, ?_, fun i hi => ?_, ?_⟩
    · rw [← hend]
      congr 1
      omega
    · cases i with
      | zero =>
        refine ⟨o, page, hk, hpage, hoffset, hutf8, fun o' ho' => ?_⟩
        rw [Nat.add_zero, hafter, hnext] at ho'
        obtain rfl := Option.some.inj ho'
        omega
      | succ i =>
        have hshift : k + (i + 1) = k + 1 + i := by omega
        rw [hshift]
        exact hanswers i (by omega)
    · rw [List.range_succ_eq_map, List.flatMap_cons, List.flatMap_map, Nat.add_zero, hshown,
        hdrop, ← hwhole]
      congr 2
      funext i
      congr 1
      omega
  · rw [if_neg hmore] at hnext
    have hend : result.drop (o + page.result.length) = [] :=
      List.drop_of_length_le (Nat.le_of_not_lt hmore)
    refine ⟨1, hafter.trans hnext, fun i hi => ?_, ?_⟩
    · obtain rfl : i = 0 := by omega
      refine ⟨o, page, hk, hpage, hoffset, hutf8, fun o' ho' => ?_⟩
      rw [Nat.add_zero, hafter, hnext] at ho'
      cases ho'
    · rw [hdrop, hend]
      simp [hshown]
termination_by result.length - o

theorem Meets.delivers (h : q.Meets r result) (hvalid : isValidUtf8 result = true) :
    ∃ count, q.Delivers result count := by
  obtain ⟨count, hend, hanswers, hwhole⟩ :=
    h.run hvalid (k := 0) (o := 0) rfl (Nat.zero_le _) (interior_zero hvalid)
  simp only [Nat.zero_add] at hend hanswers hwhole
  have hover : ∀ k, count ≤ k → q.offset k = none := by
    intro k hk
    induction k, hk using Nat.le_induction with
    | base => exact hend
    | succ k _ ih => rw [offset, ih]
  refine ⟨count, hend, fun k hk => ?_, fun i j o o' hij hi hj => ?_, hwhole⟩
  · obtain ⟨o, page, ho, hpage, hoffset, hutf8, -⟩ := hanswers k hk
    exact ⟨o, page, ho, hpage, hoffset, hutf8⟩
  · induction j, hij using Nat.le_induction generalizing o' with
    | base =>
      have hlt : i < count := by
        by_contra hge
        rw [hover i (Nat.le_of_not_lt hge)] at hi
        cases hi
      obtain ⟨o₁, page, ho₁, -, -, -, hnext⟩ := hanswers i hlt
      obtain rfl := Option.some.inj (hi.symm.trans ho₁)
      exact hnext o' hj
    | succ j _ ih =>
      have hlt : j < count := by
        by_contra hge
        rw [hover (j + 1) (by omega)] at hj
        cases hj
      obtain ⟨o₁, page, ho₁, -, -, -, hnext⟩ := hanswers j hlt
      exact lt_trans (ih o₁ ho₁) (hnext o' hj)

end Reader

/-- The windows of a well-formed result: one that starts inside a code point or cannot hold the
next one is refused, and no page is empty before the end. -/
structure Guarded (t : State) (owner : TaskOwner) (id result : Bytes) : Prop where
  inside : ∀ before point after : Bytes, result = before ++ (point ++ after) → Sequence point →
    ∀ offset maxBytes, before.length < offset → offset < before.length + point.length →
      ∃ e, (t.get owner id offset maxBytes).1 = .error e
  narrow : ∀ before point after : Bytes, result = before ++ (point ++ after) →
    isValidUtf8 before = true →
    Sequence point → ∀ maxBytes, maxBytes < point.length →
      ∃ e, (t.get owner id before.length maxBytes).1 = .error e
  progress : ∀ offset maxBytes page, (t.get owner id offset maxBytes).1 = .ok page →
    offset < result.length →
    page.result ≠ []

theorem guarded_of_found {t : State} {owner : TaskOwner} {id : Bytes} {r : JobRef}
    (hfind : t.prune.find owner id = some r) (hvalid : isValidUtf8 (t.job r).result = true) :
    Guarded t owner id (t.job r).result := by
  refine ⟨fun before point after hsplit hpoint offset maxBytes hstart hend => ?_,
    fun before point after hsplit hbefore hpoint maxBytes hnarrow => ?_,
    fun offset maxBytes page hpage hmore => State.get_ne_nil hfind hpage hmore⟩
  · refine State.get_refused hfind ?_
    have hinside : interiorOffset (t.job r).result offset = true := by
      have hpast := interior_of_sequence hpoint (Nat.sub_pos_of_lt hstart) (by omega) after
      rw [hsplit]
      unfold interiorOffset at hpast ⊢
      rwa [List.getElem?_append_right hstart.le]
    unfold State.refusesWindow
    rw [hinside, Bool.or_true, Bool.true_or]
  · refine State.get_refused hfind ?_
    have hrest : isValidUtf8 (point ++ after) = true := by
      rw [hsplit, isValidUtf8_append hbefore] at hvalid
      exact hvalid
    have hmore : before.length < (t.job r).result.length := by
      rw [hsplit, List.length_append, List.length_append]
      have hpos : 0 < point.length := Nat.lt_of_le_of_lt (Nat.zero_le _) hnarrow
      omega
    unfold State.refusesWindow
    rw [decide_eq_true hmore, hsplit, List.drop_left,
      truncateToCodePoint_narrow hpoint hrest hnarrow]
    simp

/-- A stored result is the longest prefix of the child's text within the bound, and readers get it
in full. -/
theorem result_paging {svc : Service} {s : State} (hs : State.Reachable svc s) {r : JobRef}
    (hr : r ∈ s.jobs) :
    ((s.job r).snapshot.state ≠ .succeeded →
      (s.job r).result = [] ∧ (s.job r).snapshot.resultTruncated = false) ∧
    ((s.job r).snapshot.state = .succeeded → ∃ u text, State.Reachable svc u ∧
      u.Enabled (.monitor r true (some (.ok text))) ∧
      ReflTransGen State.Step (u.apply (.monitor r true (some (.ok text)))) s ∧
      (isValidUtf8 (s.job r).result = true →
        LongestPrefix text svc.options.maxResultBytes (s.job r).result) ∧
      ((s.job r).snapshot.resultTruncated = true ↔ (s.job r).result.length < text.length)) ∧
    (taskTerminal (s.job r).snapshot.state = true → isValidUtf8 (s.job r).result = true →
      (∀ q : Reader, (∀ k, ReflTransGen State.Step s (q.states k) ∧
        (q.states k).prune.find q.owner q.id = some r) →
        (∀ k, 4 ≤ q.maxBytes k ∧ q.maxBytes k ≤ 16384) → ∃ count,
          q.Delivers (s.job r).result count) ∧
      ∀ t, ReflTransGen State.Step s t → ∀ owner id, t.prune.find owner id = some r →
        Guarded t owner id (s.job r).result) := by
  have hstored := stored_reachable hs r
  have hlt := (ledger_reachable hs).1.jobs_lt r hr
  refine ⟨hstored.none, fun hsucceeded => ?_,
    fun hterminal hvalid => ⟨fun q hq hsize => ?_, fun t ht owner id hfind => ?_⟩⟩
  · obtain ⟨u, text, hu, henabled, hrun, hcut, hmark⟩ := hstored.some hsucceeded
    refine ⟨u, text, hu, henabled, hrun, fun hvalid => ?_, ?_⟩
    · rw [hcut] at hvalid ⊢
      exact truncateToCodePoint_longest_of_valid hvalid
    · rw [hmark, decide_eq_true_iff]
  · have hmeets : q.Meets r (s.job r).result :=
      ⟨fun k => (hq k).2, fun k => (Job.report_eq (report_kept (hq k).1 hlt hterminal)).1, hsize⟩
    exact hmeets.delivers hvalid
  · have hsame : (t.job r).result = (s.job r).result :=
      (Job.report_eq (report_kept ht hlt hterminal)).1
    rw [← hsame] at hvalid ⊢
    exact guarded_of_found hfind hvalid

/-- A background run whose child reports a euro sign and two letters. -/
def State.sampleEuro : List State.Op :=
  [.start State.sampleLeader ⟨text "look", []⟩ State.sampleContext, .pump,
    .monitor 0 true (some (.ok [0xE2, 0x82, 0xAC, 0x75, 0x72]))]

/-- Windows of four bytes: the sign with a letter, and the letter that is left. -/
theorem result_paging_euro :
    (∃ count, Reader.Delivers ⟨taskOwner State.sampleLeader, formatTurnIdHex (State.sampleId 1),
      fun _ => State.sample false State.sampleEuro, fun _ => 4⟩ [0xE2, 0x82, 0xAC, 0x75,
        0x72] count) ∧
    Guarded (State.sample false State.sampleEuro) (taskOwner State.sampleLeader)
      (formatTurnIdHex (State.sampleId 1))
      [0xE2, 0x82, 0xAC, 0x75, 0x72] := by
  have hs : State.Reachable (State.sampleService false) (State.sample false State.sampleEuro) :=
    State.reachable_applyAll (by decide) (by decide +kernel)
  have hfind : (State.sample false State.sampleEuro).prune.find (taskOwner State.sampleLeader)
      (formatTurnIdHex (State.sampleId 1)) = some 0 := by decide +kernel
  have hresult : ((State.sample false State.sampleEuro).job 0).result = [0xE2, 0x82, 0xAC, 0x75,
    0x72] := by decide +kernel
  have hpages := (result_paging hs (r := 0) (by decide +kernel)).2.2 (by decide +kernel)
    (by decide +kernel)
  rw [hresult] at hpages
  exact ⟨hpages.1 _ (fun _ => ⟨.refl, hfind⟩) fun _ => ⟨le_refl 4, by norm_num⟩,
    hpages.2 _ .refl _ _ hfind⟩

end Orangutan.Bootstrap
