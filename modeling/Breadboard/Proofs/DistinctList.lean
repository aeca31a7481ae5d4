import Mathlib.Data.List.Induction

set_option autoImplicit false

namespace Breadboard

section

variable {α : Type} [BEq α] [LawfulBEq α]

/-- One more entry comes last, unless it is there. -/
theorem eraseDups_concat (list : List α) (entry : α) :
    (list ++ [entry]).eraseDups =
      if list.contains entry then list.eraseDups else list.eraseDups ++ [entry] := by
  rw [List.eraseDups_append]
  split
  · rename_i present
    have nothing : [entry].removeAll list = [] := by simpa [List.removeAll] using present
    rw [nothing, List.eraseDups_nil, List.append_nil]
  · rename_i absent
    have alone : [entry].removeAll list = [entry] := by simpa [List.removeAll] using absent
    rw [alone]
    rfl

theorem nodup_eraseDups (list : List α) : list.eraseDups.Nodup := by
  induction list using List.reverseRecOn with
  | nil => exact List.nodup_nil
  | append_singleton list entry ih =>
      rw [eraseDups_concat]
      split
      · exact ih
      · rename_i absent
        refine List.nodup_append.mpr ⟨ih, List.pairwise_singleton _ _, fun other member last isLast => ?_⟩
        obtain rfl := List.mem_singleton.mp isLast
        rintro rfl
        exact absent (by simpa using member)

/-- Two entries are left if and only if two of the entries differ. -/
theorem one_lt_length_eraseDups {list : List α} :
    1 < list.eraseDups.length ↔ ∃ first ∈ list, ∃ second ∈ list, first ≠ second := by
  have distinct := nodup_eraseDups list
  have members {entry : α} : entry ∈ list ↔ entry ∈ list.eraseDups := List.mem_eraseDups.symm
  simp only [members]
  generalize list.eraseDups = left at distinct
  constructor
  · intro several
    match left, several with
    | first :: second :: rest, _ =>
        refine ⟨first, List.mem_cons_self, second, by simp, ?_⟩
        rintro rfl
        exact (List.nodup_cons.mp distinct).1 List.mem_cons_self
  · rintro ⟨first, isFirst, second, isSecond, differ⟩
    match left, isFirst, isSecond with
    | [only], isFirst, isSecond =>
        exact absurd ((List.mem_singleton.mp isFirst).trans (List.mem_singleton.mp isSecond).symm) differ
    | _ :: _ :: rest, _, _ => simp

end

end Breadboard
