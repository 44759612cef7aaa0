import Orangutan.Async.TaskGroup

/-!
# The books of a task group

Every accepted child is active, stored, handed out or counted as dropped. The rows of a report
are in spawn order, and a timed report has a lagging row for each active child.
-/

namespace Orangutan.Async

set_option autoImplicit false

open Orangutan.Core

section Order

variable {α : Type} (key : α → Nat)

end Order

namespace Handed

def finals (h : Handed) : List CompletedRecord := h.rows.filter fun row =>
    row.outcome.status ≠ .lagging

def laggards (h : Handed) : List CompletedRecord := h.rows.filter fun row =>
    row.outcome.status = .lagging

/-- The rows are in spawn order, and those that lag are the active children of a timed report. -/
structure Ordered (h : Handed) : Prop where
  spawnOrder : (h.rows.map (·.sequence)).Pairwise (· < ·)
  lagging : h.laggards.Perm (if h.timed then h.active.map laggingRow else [])
  distinct : (h.active.map (·.sequence)).Nodup

end Handed

/-- What the accounts of the children are about. -/
structure Books where
  options : TaskGroupOptions
  active : List ChildRecord
  completed : List CompletedRecord
  nextSequence : Nat
  completedDropped : Nat
  accepted : Nat
  reports : List Handed

def TaskGroup.books (s : TaskGroup) : Books where
  options := s.impl.options
  active := s.impl.active
  completed := s.impl.completed
  nextSequence := s.impl.nextSequence
  completedDropped := s.impl.completedDropped
  accepted := s.accepted
  reports := s.reports

namespace Books

/-- The final outcomes that the reports have handed out. -/
def handed (b : Books) : List CompletedRecord := b.reports.flatMap Handed.finals

def sequences (b : Books) : List Nat :=
  b.active.map (·.sequence) ++ (b.completed ++ b.handed).map (·.sequence)

structure Balanced (b : Books) : Prop where
  room : 0 < b.options.maxCompleted
  conserved : b.accepted =
    b.active.length + b.completed.length + b.handed.length +
      ((b.reports.map (·.dropped)).sum + b.completedDropped)
  distinct : b.sequences.Nodup
  fresh : ∀ sequence ∈ b.sequences, sequence < b.nextSequence
  final : ∀ c ∈ b.completed, c.outcome.status ≠ .lagging
  ordered : ∀ h ∈ b.reports, h.Ordered
  activeRoom : b.active.length ≤ b.options.maxTasks
  completedRoom : b.completed.length ≤ b.options.maxCompleted

variable {b : Books}

/-- A child is accepted. -/
theorem Balanced.spawn (h : b.Balanced) (hroom : b.active.length < b.options.maxTasks)
    (name : Bytes) :
    Balanced { b with
      nextSequence := b.nextSequence + 1
      active := b.active ++ [{ sequence := b.nextSequence, name }]
      accepted := b.accepted + 1 } := by
  have hnew : b.nextSequence ∉ b.sequences := fun hmem => Nat.lt_irrefl _ (h.fresh _ hmem)
  have hperm : (sequences { b with
      nextSequence := b.nextSequence + 1
      active := b.active ++ [{ sequence := b.nextSequence, name }]
      accepted := b.accepted + 1 }).Perm (b.nextSequence :: b.sequences) := by
    simp only [sequences, handed, List.map_append, List.map_cons, List.map_nil, List.append_assoc]
    exact List.perm_middle
  constructor
  · exact h.room
  · have hconserved := h.conserved
    simp only [handed, List.length_append, List.length_singleton] at hconserved ⊢
    omega
  · exact hperm.nodup_iff.mpr (List.nodup_cons.mpr ⟨hnew, h.distinct⟩)
  · intro sequence hmem
    rcases List.mem_cons.mp (hperm.mem_iff.mp hmem) with rfl | hmem
    · exact Nat.lt_succ_self _
    · exact Nat.lt_succ_of_lt (h.fresh _ hmem)
  · exact h.final
  · exact h.ordered
  · simpa using hroom
  · exact h.completedRoom

/-- A child moves from the active ones to the stored outcomes, whose oldest is dropped when they are
full. -/
theorem Balanced.finish (h : b.Balanced) {child : ChildRecord} {sequence : Nat}
    (hchild : b.active.find? (fun child => child.sequence == sequence) = some child)
      {outcome : TaskOutcome}
    (hfinal : outcome.status ≠ .lagging) :
    Balanced { b with
      active := b.active.eraseP fun child => child.sequence == sequence
      completed := (if b.completed.length = b.options.maxCompleted then b.completed.tail
        else b.completed) ++
        [{ sequence, outcome }]
      completedDropped :=
        if b.completed.length = b.options.maxCompleted then b.completedDropped + 1
          else b.completedDropped } := by
  obtain rfl : child.sequence = sequence := by simpa using List.find?_some hchild
  have hactive := Channel.find_eraseP_perm hchild
  generalize b.active.eraseP (fun other => other.sequence == child.sequence) = rest at hactive ⊢
  have hlength := hactive.length_eq
  -- the stored outcomes that stay, and how many are dropped
  obtain ⟨stored, dropped, hstored, hdropped, hsub, hcount, hfits⟩ : ∃ stored dropped,
      (if b.completed.length = b.options.maxCompleted then b.completed.tail
        else b.completed) = stored ∧
      (if b.completed.length = b.options.maxCompleted then b.completedDropped + 1
        else b.completedDropped) =
        b.completedDropped + dropped ∧
      stored.Sublist b.completed ∧ stored.length + dropped = b.completed.length ∧
      stored.length < b.options.maxCompleted := by
    have hroom := h.room
    have hcompleted := h.completedRoom
    by_cases hfull : b.completed.length = b.options.maxCompleted
    · refine ⟨b.completed.tail, 1, if_pos hfull, if_pos hfull, List.tail_sublist _, ?_, ?_⟩
      · rw [List.length_tail]
        omega
      · rw [List.length_tail]
        omega
    · refine ⟨b.completed, 0, if_neg hfull, if_neg hfull, List.Sublist.refl _, rfl, ?_⟩
      omega
  rw [hstored, hdropped]
  have hsequences : (rest.map (·.sequence) ++
    ((stored ++ [(⟨child.sequence, outcome⟩ : CompletedRecord)]) ++ b.handed).map (·.sequence)).Perm
      ((child :: rest).map (·.sequence) ++ (stored ++ b.handed).map (·.sequence)) := by
    simp only [List.map_append, List.map_cons, List.append_assoc, List.cons_append, List.nil_append]
    rw [← List.append_assoc, ← List.append_assoc]
    exact List.perm_middle
  have hsublist : ((child :: rest).map (·.sequence) ++
    (stored ++ b.handed).map (·.sequence)).Sublist
      ((child :: rest).map (·.sequence) ++ (b.completed ++ b.handed).map (·.sequence)) :=
    List.Sublist.append_left ((hsub.append_right _).map _) _
  have hall : ((child :: rest).map (·.sequence) ++ (b.completed ++ b.handed).map (·.sequence)).Perm
      b.sequences :=
    (hactive.symm.map _).append_right _
  constructor
  · exact h.room
  · have hconserved := h.conserved
    simp only [handed, List.length_append, List.length_cons,
      List.length_nil] at hconserved hlength ⊢
    omega
  · exact hsequences.nodup_iff.mpr ((hall.nodup_iff.mpr h.distinct).sublist hsublist)
  · intro sequence hmem
    exact h.fresh _ (hall.mem_iff.mp (hsublist.subset (hsequences.mem_iff.mp hmem)))
  · intro c hc
    rcases List.mem_append.mp hc with hc | hc
    · exact h.final c (hsub.subset hc)
    · rw [List.mem_singleton.mp hc]
      exact hfinal
  · exact h.ordered
  · have hroom := h.activeRoom
    rw [List.length_cons] at hlength
    dsimp only
    omega
  · simpa using hfits

/-- The stored outcomes are handed out, with rows for active children or without. -/
theorem Balanced.handOut (h : b.Balanced) {report : Handed} (hordered : report.Ordered)
    (hfinals : report.finals.Perm b.completed) (hdropped : report.dropped = b.completedDropped) :
    Balanced { b with
      completed := [], completedDropped := 0, reports := b.reports ++ [report] } := by
  have hhanded : (b.reports ++ [report]).flatMap Handed.finals = b.handed ++ report.finals := by
    rw [List.flatMap_append, List.flatMap_singleton, handed]
  have hperm : (sequences { b with
      completed := [], completedDropped := 0, reports := b.reports ++ [report] }).Perm
      b.sequences := by
    simp only [sequences, handed, List.nil_append, hhanded]
    exact List.Perm.append_left _ ((List.perm_append_comm.trans (hfinals.append_right _)).map _)
  constructor
  · exact h.room
  · have hconserved := h.conserved
    have hlength := hfinals.length_eq
    simp only [handed, hhanded, List.length_append, List.length_nil, List.map_append,
      List.sum_append, List.map_cons, List.map_nil, List.sum_cons, List.sum_nil] at hconserved ⊢
    omega
  · exact hperm.nodup_iff.mpr h.distinct
  · intro sequence hmem
    exact h.fresh _ (hperm.mem_iff.mp hmem)
  · intro c hc
    cases hc
  · intro r hr
    rcases List.mem_append.mp hr with hr | hr
    · exact h.ordered r hr
    · rw [List.mem_singleton.mp hr]
      exact hordered
  · exact h.activeRoom
  · exact Nat.zero_le _

end Books

end Orangutan.Async
