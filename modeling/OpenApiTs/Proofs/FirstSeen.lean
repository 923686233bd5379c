/-
  OpenApiTs.Proofs.FirstSeen

  Texts listed once each, in the order in which they are first met: one more text goes to the end of
  the list unless it is there already.
-/
import Mathlib.Data.List.Nodup
import Mathlib.Data.List.Induction

namespace OpenApiTs

variable {names : List String} {name : String}

/-- One name more is kept unless it was there. -/
theorem eraseDups_concat (names : List String) (name : String) :
    (names ++ [name]).eraseDups =
      if name ∈ names then names.eraseDups else names.eraseDups ++ [name] := by
  rw [List.eraseDups_append]
  by_cases h_mem : name ∈ names
  · have h_none : [name].removeAll names = [] := by simp [List.removeAll, h_mem]
    rw [if_pos h_mem, h_none, List.eraseDups_nil, List.append_nil]
  · have h_kept : [name].removeAll names = [name] := by simp [List.removeAll, h_mem]
    rw [if_neg h_mem, h_kept, List.eraseDups_cons]
    rfl

theorem nodup_eraseDups (names : List String) : names.eraseDups.Nodup := by
  induction names using List.reverseRecOn with
  | nil => simp
  | append_singleton names name ih =>
    rw [eraseDups_concat]
    -- a name that was met before adds nothing
    split
    · exact ih
    · next h_new =>
      rw [← List.concat_eq_append]
      exact List.Nodup.concat (mt List.mem_eraseDups.mp h_new) ih

/-- Whether `listed` has the texts of a list, each of them once and in the order in which they are
    first met. -/
structure FirstSeen (names listed : List String) : Prop where
  nodup : listed.Nodup
  mem_iff : ∀ name, name ∈ listed ↔ name ∈ names
  ordered : listed.Pairwise fun first second => names.idxOf first < names.idxOf second

/-- Erasing repetitions leaves the names as they are first seen. -/
theorem firstSeen_eraseDups (names : List String) : FirstSeen names names.eraseDups := by
  refine ⟨nodup_eraseDups names, fun name => List.mem_eraseDups, ?_⟩
  induction names using List.reverseRecOn with
  | nil => simp
  | append_singleton names name ih =>
    -- what was met before keeps its place, and a new name is behind all of it
    have h_kept : names.eraseDups.Pairwise fun first second =>
        (names ++ [name]).idxOf first < (names ++ [name]).idxOf second := by
      refine ih.imp_of_mem ?_
      intro first second h_first h_second h_less
      rwa [List.idxOf_append_of_mem (List.mem_eraseDups.mp h_first),
        List.idxOf_append_of_mem (List.mem_eraseDups.mp h_second)]
    rw [eraseDups_concat]
    split
    · exact h_kept
    · next h_new =>
      refine List.pairwise_append.mpr ⟨h_kept, List.pairwise_singleton _ _, ?_⟩
      intro first h_first second h_second
      have h_before := List.mem_eraseDups.mp h_first
      rw [List.mem_singleton.mp h_second, List.idxOf_append_of_mem h_before,
        List.idxOf_append_of_notMem h_new, List.idxOf_cons_self, Nat.add_zero]
      exact List.idxOf_lt_length_of_mem h_before

end OpenApiTs
