import HmcClient.Proofs.Url.Host

/-!
# What stands in a path

A path that is read has nothing in it that would have to be encoded. Resolving dot segments only
drops segments or puts empty ones in their place, and the drive of a file's path is a letter and a
colon.
-/

namespace HmcClient

namespace Url

/-- Whether no character of a text is one that is encoded in paths. -/
def PathChars (cs : List Char) : Prop := ∀ c ∈ cs, Percent.inPath c = false

theorem pathChars_encodeSegment (segment : List Char) :
    PathChars (Path.encodeSegment segment).toList := by
  rw [Path.encodeSegment, String.toList_ofList]
  exact Percent.encode_encoded (fun h => (Percent.not_inPath_of_isEscapeChar h).1) segment

/-- The segments of a resolved path are those kept before, empty, or encoded. -/
theorem mem_resolve {kept : List String} {segments : List (List Char)} {s : String}
    (h : s ∈ Path.resolve kept segments) :
    s ∈ kept ∨ s = "" ∨ ∃ segment ∈ segments, s = Path.encodeSegment segment := by
  fun_induction Path.resolve kept segments with
  | case1 kept => exact .inl (List.mem_reverse.1 h)
  | case2 kept last =>
      rcases List.mem_cons.1 (List.mem_reverse.1 h) with rfl | h
      · exact .inr (.inl rfl)
      · exact .inl h
  | case3 kept last =>
      rcases List.mem_cons.1 (List.mem_reverse.1 h) with rfl | h
      · exact .inr (.inl rfl)
      · exact .inl (Path.mem_dropLastSegment h)
  | case4 kept last =>
      rcases List.mem_cons.1 (List.mem_reverse.1 h) with rfl | h
      · exact .inr (.inr ⟨last, List.mem_singleton_self last, rfl⟩)
      · exact .inl h
  | case5 kept segment rest _ _ ih =>
      rcases ih h with h | h | ⟨t, ht, hs⟩
      · exact .inl h
      · exact .inr (.inl h)
      · exact .inr (.inr ⟨t, List.mem_cons_of_mem _ ht, hs⟩)
  | case6 kept segment rest _ _ ih =>
      rcases ih h with h | h | ⟨t, ht, hs⟩
      · exact .inl (Path.mem_dropLastSegment h)
      · exact .inr (.inl h)
      · exact .inr (.inr ⟨t, List.mem_cons_of_mem _ ht, hs⟩)
  | case7 kept segment rest _ _ ih =>
      rcases ih h with h | h | ⟨t, ht, hs⟩
      · rcases List.mem_cons.1 h with rfl | h
        · exact .inr (.inr ⟨segment, List.mem_cons_self, rfl⟩)
        · exact .inl h
      · exact .inr (.inl h)
      · exact .inr (.inr ⟨t, List.mem_cons_of_mem _ ht, hs⟩)

/-- The segments of a path that is read have nothing to encode, and no slash. -/
theorem mem_ofText {web : Bool} {cs : List Char} {s : String} (h : s ∈ Path.ofText web cs) :
    PathChars s.toList ∧ ∀ c ∈ s.toList, c ≠ '/' := by
  rw [Path.ofText] at h
  split at h
  · cases h
  rcases mem_resolve h with h | rfl | ⟨segment, hsegment, rfl⟩
  · cases h
  · exact ⟨fun c hc => absurd hc List.not_mem_nil, fun c hc => absurd hc List.not_mem_nil⟩
  · refine ⟨pathChars_encodeSegment segment, fun c hc => ?_⟩
    rw [Path.encodeSegment, String.toList_ofList] at hc
    rintro rfl
    rcases Percent.mem_encode hc with ⟨hc, -⟩ | hc
    · have hwhole := Host.mem_splitOn hsegment hc
      cases web <;> exact absurd hwhole (by decide)
    · exact absurd hc (by decide)

theorem not_inPath_of_isAlpha {c : Char} (h : c.isAlpha = true) : Percent.inPath c = false := by
  have hletters : ∀ n < 128, (Char.ofNat n).isAlpha = true →
      Percent.inPath (Char.ofNat n) = false := by decide
  have hplain : Form.isPlain c = true := by
    rw [Form.isPlain, Char.isAlphanum, h]
    rfl
  have hletter := hletters c.toNat (Form.toNat_of_isPlain hplain)
  rw [Char.ofNat_toNat] at hletter
  exact hletter h

theorem pathChars_drive {letter : Char} (h : letter.isAlpha = true) : PathChars [letter, ':'] := by
  intro c hc
  rcases List.mem_cons.1 hc with rfl | hc
  · exact not_inPath_of_isAlpha h
  · rw [List.mem_singleton.1 hc]
    decide

namespace FilePath

/-- Whether no segment of a path has something to encode. -/
def Plain (path : FilePath) : Prop := ∀ s ∈ path.segments, PathChars s.toList

theorem plain_ofFirst (segment : List Char) : (ofFirst segment).Plain := by
  rw [ofFirst]
  split
  next drive rest hparted =>
    have hdrive : PathChars drive := by
      rw [partedDrive?] at hparted
      split at hparted
      next letter _ _ =>
        split at hparted
        · dsimp only at hparted
          split at hparted
          next hletter =>
            rw [Bool.and_eq_true, Bool.and_eq_true] at hletter
            obtain ⟨rfl, -⟩ := Prod.mk.inj (Option.some.inj hparted)
            exact pathChars_drive hletter.1.1
          · cases hparted
        · cases hparted
      · cases hparted
    intro s hs
    rcases List.mem_cons.1 hs with rfl | hs
    · exact pathChars_encodeSegment rest
    · rw [List.mem_singleton.1 hs, String.toList_ofList]
      exact hdrive
  · split
    next hdrive =>
      intro s hs
      rw [List.mem_singleton.1 hs, String.toList_ofList]
      unfold Path.isDrive at hdrive
      split at hdrive
      next letter mark heq =>
        rw [heq]
        rw [Bool.and_eq_true] at hdrive
        exact pathChars_drive hdrive.1
      · cases hdrive
    · intro s hs
      rw [List.mem_singleton.1 hs]
      exact pathChars_encodeSegment _

theorem Plain.push {path : FilePath} (h : path.Plain) (segment : List Char) :
    (path.push segment).Plain := by
  rw [FilePath.push]
  split
  · exact plain_ofFirst segment
  · intro s hs
    rcases List.mem_cons.1 hs with rfl | hs
    · exact pathChars_encodeSegment _
    · exact h s hs

theorem Plain.pop {path : FilePath} (h : path.Plain) : path.pop.Plain :=
  fun s hs => h s (Path.mem_dropLastSegment hs)

theorem Plain.resolve {path : FilePath} (h : path.Plain) (segments : List (List Char)) :
    (FilePath.resolve path segments).Plain := by
  fun_induction FilePath.resolve path segments with
  | case1 path => exact h
  | case2 path last => exact h.push _
  | case3 path last => exact h.pop.push _
  | case4 path last => exact h.push _
  | case5 path segment rest _ _ ih => exact ih h
  | case6 path segment rest _ _ ih => exact ih h.pop
  | case7 path segment rest _ _ ih => exact ih (h.push _)

/-- The path of a file that is read has nothing to encode, and a segment at least. -/
theorem ofText_plain (cs : List Char) :
    (ofText cs).segments ≠ [] ∧ ∀ s ∈ (ofText cs).segments, PathChars s.toList := by
  have hplain : (FilePath.resolve ⟨[], false⟩ (Host.splitOn (Path.isSeparator true) cs)).Plain :=
    Plain.resolve (fun s hs => absurd hs List.not_mem_nil) _
  rw [ofText]
  dsimp only
  rw [dropEmptySegments]
  split
  · refine ⟨List.cons_ne_nil _ _, fun s hs => ?_⟩
    rw [List.mem_singleton.1 hs]
    exact fun c hc => absurd hc List.not_mem_nil
  next hne =>
    exact ⟨hne, fun s hs =>
      hplain s (List.mem_reverse.1 (List.dropWhile_sublist _ |>.mem hs))⟩

end FilePath

end Url

end HmcClient
