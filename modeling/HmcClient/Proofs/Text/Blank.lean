import HmcClient.Text.Blank

/-!
# Texts that have nothing to trim

Trimming stops at the first character, from either end, that is not in the class. So a text is kept
if its ends are, and what stands before a character that is kept is kept with it.
-/

namespace HmcClient.Blank

variable {α : Type} {p : α → Bool}

theorem dropEndWhile_concat {x : α} (xs : List α) (hx : p x = false) :
    dropEndWhile p (xs ++ [x]) = xs ++ [x] := by
  rw [dropEndWhile, List.reverse_append, List.reverse_singleton, List.singleton_append,
    List.dropWhile_cons_of_neg (by simp [hx]), List.reverse_cons, List.reverse_reverse]

theorem trimWhile_of_ends {x y : α} (xs : List α) (hx : p x = false) (hy : p y = false) :
    trimWhile p (x :: (xs ++ [y])) = x :: (xs ++ [y]) := by
  rw [trimWhile, List.dropWhile_cons_of_neg (by simp [hx]), ← List.cons_append,
    dropEndWhile_concat _ hy]

theorem dropEndWhile_of_none {xs : List α} (h : ∀ x ∈ xs, p x = false) :
    dropEndWhile p xs = xs := by
  rcases List.eq_nil_or_concat xs with rfl | ⟨front, last, hlast⟩
  · rfl
  · rw [List.concat_eq_append] at hlast
    rw [hlast] at h ⊢
    exact dropEndWhile_concat front (h last (by simp))

theorem trimWhile_of_none {xs : List α} (h : ∀ x ∈ xs, p x = false) : trimWhile p xs = xs := by
  cases xs with
  | nil => rfl
  | cons x xs =>
      rw [trimWhile, List.dropWhile_cons_of_neg (by simp [h x List.mem_cons_self]),
        dropEndWhile_of_none h]

/-- Trimming the end goes no further back than to a character that is kept. -/
theorem dropEndWhile_append_cons {x : α} (xs ys : List α) (hx : p x = false) :
    dropEndWhile p (xs ++ x :: ys) = xs ++ x :: dropEndWhile p ys := by
  have hstop : (ys.reverse ++ x :: xs.reverse).dropWhile p =
      ys.reverse.dropWhile p ++ x :: xs.reverse := by
    rw [List.dropWhile_append]
    split
    next hall =>
      rw [List.isEmpty_iff.1 hall, List.dropWhile_cons_of_neg (by simp [hx])]
      rfl
    · rfl
  rw [dropEndWhile, dropEndWhile, List.reverse_append, List.reverse_cons, List.append_assoc,
    List.singleton_append, hstop, List.reverse_append, List.reverse_cons, List.reverse_reverse,
    List.append_assoc]
  rfl

/-- What is left when the end is trimmed is a front of the text. -/
theorem dropEndWhile_prefix (xs : List α) : dropEndWhile p xs <+: xs := by
  have hsuffix := List.reverse_prefix.2 (List.dropWhile_suffix p (l := xs.reverse))
  rwa [List.reverse_reverse] at hsuffix

end HmcClient.Blank
