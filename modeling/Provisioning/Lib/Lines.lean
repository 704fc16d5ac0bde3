import Mathlib.Data.List.Basic

/-!
# Lines of a stream

A stream is cut at its separators, and what stands after the last one waits for more. Cutting what has
come so far and going on with the rest is cutting the whole.
-/

namespace Lib.Lines

/-! ## One separator -/

theorem append_sep_inj {α : Type} {c : α} {xs xs' ys ys' : List α} (h : c ∉ xs) (h' : c ∉ xs') :
    xs ++ c :: ys = xs' ++ c :: ys' ↔ xs = xs' ∧ ys = ys' := by
  constructor
  · intro heq
    rcases List.append_eq_append_iff.1 heq with ⟨as, rfl, hrest⟩ | ⟨as, rfl, hrest⟩
    · cases as with
      | nil => exact ⟨(List.append_nil xs).symm, (List.cons.inj hrest).2⟩
      | cons a rest =>
        obtain rfl := (List.cons.inj hrest).1
        exact absurd (List.mem_append_right xs List.mem_cons_self) h'
    · cases as with
      | nil => exact ⟨List.append_nil xs', (List.cons.inj hrest).2.symm⟩
      | cons a rest =>
        obtain rfl := (List.cons.inj hrest).1
        exact absurd (List.mem_append_right xs' List.mem_cons_self) h
  · rintro ⟨rfl, rfl⟩
    rfl

theorem append_sep_inj_last {α : Type} {c : α} {xs xs' ys ys' : List α} (h : c ∉ ys) (h' : c ∉ ys') :
    xs ++ c :: ys = xs' ++ c :: ys' ↔ xs = xs' ∧ ys = ys' := by
  have hfirst := @append_sep_inj α c ys.reverse ys'.reverse xs.reverse xs'.reverse (by simpa using h)
    (by simpa using h')
  rw [← List.reverse_inj]
  simp only [List.reverse_append, List.reverse_cons, List.append_assoc, List.singleton_append]
  rw [hfirst, List.reverse_inj, List.reverse_inj, and_comm]

/-! ## Many -/

variable {α : Type} [DecidableEq α] (sep : α)

/-- The first line goes on to the left. -/
def push (c : α) : List (List α) × List α → List (List α) × List α
  | ([], last) => ([], c :: last)
  | (line :: lines, last) => ((c :: line) :: lines, last)

/-- The complete lines, and what comes after them. -/
def cut : List α → List (List α) × List α
  | [] => ([], [])
  | c :: rest => if c = sep then ([] :: (cut rest).1, (cut rest).2) else push c (cut rest)

variable {sep} {line rest : List α}

theorem cut_of_not_mem (h : sep ∉ line) : cut sep line = ([], line) := by
  induction line with
  | nil => rfl
  | cons c line ih =>
    rw [List.mem_cons, not_or] at h
    rw [cut, if_neg (Ne.symm h.1), ih h.2, push]

theorem not_mem_last (text : List α) : sep ∉ (cut sep text).2 := by
  induction text with
  | nil => simp [cut]
  | cons c rest ih =>
    rw [cut]
    split
    · exact ih
    · rename_i hne
      revert ih
      generalize cut sep rest = parts
      obtain ⟨_ | ⟨line, lines⟩, last⟩ := parts
      · intro ih
        simpa [push, Ne.symm hne] using ih
      · exact id

theorem cut_line (h : sep ∉ line) (rest : List α) :
    cut sep (line ++ sep :: rest) = (line :: (cut sep rest).1, (cut sep rest).2) := by
  induction line with
  | nil => rw [List.nil_append, cut, if_pos rfl]
  | cons c line ih =>
    rw [List.mem_cons, not_or] at h
    rw [List.cons_append, cut, if_neg (Ne.symm h.1), ih h.2, push]

/-- A stream comes in pieces. -/
theorem cut_append (text more : List α) :
    cut sep (text ++ more) =
      ((cut sep text).1 ++ (cut sep ((cut sep text).2 ++ more)).1, (cut sep ((cut sep text).2 ++ more)).2) := by
  induction text with
  | nil => rfl
  | cons c rest ih =>
    rw [List.cons_append, cut, cut, ih]
    split
    · rfl
    · rename_i hne
      generalize cut sep rest = parts
      obtain ⟨_ | ⟨line, lines⟩, last⟩ := parts
      · have hpush : push c (([] : List (List α)), last) = ([], c :: last) := rfl
        rw [hpush, List.nil_append, List.nil_append, List.cons_append, cut, if_neg hne]
      · rfl

theorem cut_lines {lines : List (List α)} (h : ∀ line ∈ lines, sep ∉ line) :
    cut sep (lines.flatMap fun line => line ++ [sep]) = (lines, []) := by
  induction lines with
  | nil => rfl
  | cons line lines ih =>
    rw [List.flatMap_cons, List.append_assoc, List.singleton_append, cut_line (h line List.mem_cons_self),
      ih fun l hl => h l (List.mem_cons_of_mem _ hl)]

end Lib.Lines
