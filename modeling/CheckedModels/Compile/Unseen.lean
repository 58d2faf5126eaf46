/-! The measure of a search: how many names it has not seen. -/
namespace CheckedModels

def unseen (names seen : List String) : Nat := names.countP fun n => !seen.contains n

theorem unseen_le {names seen later : List String} (sub : seen ⊆ later) :
    unseen names later ≤ unseen names seen := by
  apply List.countP_mono_left
  intro n _ h
  simp only [Bool.not_eq_true', List.contains_iff_mem, Bool.eq_false_iff, ne_eq] at h ⊢
  exact fun hn => h (sub hn)

/-- Seeing one more name brings the search closer to its end. -/
theorem unseen_lt {names seen later : List String} {name : String} (sub : seen ⊆ later)
    (mem : name ∈ names) (new : name ∉ seen) (now : name ∈ later) :
    unseen names later < unseen names seen := by
  induction names with
  | nil => simp at mem
  | cons n rest ih =>
    have le := @unseen_le rest _ _ sub
    simp only [unseen, List.countP_cons] at *
    by_cases hn : n = name
    · subst hn
      simp [new, now] at le ⊢
      omega
    · have h := ih ((List.mem_cons.1 mem).resolve_left (Ne.symm hn))
      have step := @unseen_le [n] _ _ sub
      simp only [unseen, List.countP_cons, List.countP_nil] at step
      omega

end CheckedModels
