import HmcClient.Proofs.Metrics.Grammar

/-!
# Metrics texts that break off

What the first lines of a metrics text are read as, compared with the whole. The reader sees the
lines in order and never looks back, so over the lines that are left it goes the same way in both
texts and comes to the same place with the same samples (`Passes.exists_front`). What the end of the
text makes of that place is then compared with what the other lines make of it: between objects it
adds nothing, and among the rows of an object it adds the sample with the rows that it has, to which
the other lines can only add more (`Sample.begins_of_readFrom`). The one place at which the text
cannot end is before a timestamp.

Which lines lead to that place is told by the grammar and not by the reader. Up to a line that is
not the end of the text, no derivation depends on what follows, so what is due there is due in both
texts (`Due.shift`).
-/

namespace HmcClient

namespace Sample

/-- Whether a sample tells the same of the same object as another one, as far as it goes: it may
lack some of the last rows. -/
structure Begins (s whole : Sample) : Prop where
  group : s.group = whole.group
  objectUri : s.objectUri = whole.objectUri
  timestamp : s.timestamp = whole.timestamp
  rows : s.rows <+: whole.rows

/-- Whether samples are the first of others, except that the last one of them may lack rows. -/
def CutShort (found full : List Sample) : Prop :=
  found = [] ∨ ∃ before s whole after,
    found = before ++ [s] ∧ full = before ++ whole :: after ∧ s.Begins whole

theorem Begins.refl (s : Sample) : s.Begins s := ⟨rfl, rfl, rfl, List.prefix_refl _⟩

theorem cutShort_append (found more : List Sample) : CutShort found (found ++ more) := by
  rcases List.eq_nil_or_concat found with rfl | ⟨before, s, rfl⟩
  · exact .inl rfl
  · rw [List.concat_eq_append, List.append_assoc, List.singleton_append]
    exact .inr ⟨before, s, s, more, rfl, rfl, Begins.refl s⟩

/-- Among the rows of an object, whatever follows is read as more of its rows and then as more
samples. -/
theorem begins_of_readFrom {lines : List (List Char)} {s : Sample} {n : Nat} {found : List Sample}
    (h : readFrom n (.rows s) lines = .ok found) :
    ∃ whole after, found = whole :: after ∧ s.Begins whole := by
  induction lines generalizing s n with
  | nil =>
      obtain rfl := Except.ok.inj h
      exact ⟨s, [], rfl, Begins.refl s⟩
  | cons line lines ih =>
      rw [readFrom] at h
      split at h
      next =>
        cases hrest : readFrom (n + 1) (.object s.group) lines with
        | error f =>
            rw [hrest] at h
            cases h
        | ok after =>
            rw [hrest] at h
            exact ⟨s, after, (Except.ok.inj h).symm, Begins.refl s⟩
      next =>
        obtain ⟨whole, after, rfl, hbegins⟩ := ih h
        exact ⟨whole, after, rfl, hbegins.group, hbegins.objectUri, hbegins.timestamp,
          (List.prefix_append _ _).trans hbegins.rows⟩

end Sample

namespace Grammar

/-! ## The place at the end of the first lines -/

namespace Passes

variable {place : Sample.Place} {full : List Sample}

/-- A line that is read is passed in one way, whatever follows. -/
theorem exists_line {line : Line} {rest : List Line} {n : Nat}
    (h : Sample.readFrom n place (line :: rest) = .ok full) :
    ∃ place' samples, ∀ rest', Passes place (line :: rest') place' rest' samples := by
  cases place with
  | group =>
      by_cases hline : line = []
      · subst hline
        exact ⟨.group, [], fun rest' => emptyLines 1 rest'⟩
      · exact ⟨_, [], fun rest' => name hline rest'⟩
  | object group =>
      by_cases hline : line = []
      · subst hline
        exact ⟨.group, [], fun rest' => Passes.line fun _ => rfl⟩
      · refine ⟨.timestamp group (Sample.unquote line), [], fun rest' => Passes.line fun n => ?_⟩
        rw [Sample.readFrom, if_neg (by simpa using hline)]
  | timestamp group uri =>
      cases htime : Literal.readInt64 (Blank.trim line) with
      | error fault =>
          rw [Sample.readFrom, htime] at h
          cases h
      | ok time =>
          refine ⟨.rows ⟨group, uri, time, []⟩, [], fun rest' => Passes.line fun n => ?_⟩
          rw [Sample.readFrom, htime]
  | rows s =>
      by_cases hline : line = []
      · subst hline
        exact ⟨.object s.group, [s], fun rest' => objectEnding .emptyLine s⟩
      · have hrows : ∀ row ∈ [line], row ≠ [] := List.forall_mem_singleton.2 hline
        exact ⟨_, [], fun rest' => rows hrows⟩

/-- So are the first lines of a text that is read. -/
theorem exists_front {front rest : List Line} {n : Nat}
    (h : Sample.readFrom n place (front ++ rest) = .ok full) :
    ∃ place' samples, ∀ rest', Passes place (front ++ rest') place' rest' samples := by
  induction front generalizing place n full with
  | nil => exact ⟨place, [], fun rest' => refl place rest'⟩
  | cons line front ih =>
      obtain ⟨between, samples, hline⟩ := exists_line h
      obtain ⟨passed, -, hread⟩ := hline (front ++ rest)
      rw [List.cons_append, hread] at h
      cases hfront : Sample.readFrom (n + passed) between (front ++ rest) with
      | error f =>
          rw [hfront] at h
          cases h
      | ok found =>
          obtain ⟨place', samples', hpasses⟩ := ih hfront
          exact ⟨place', samples ++ samples', fun rest' => (hline _).trans (hpasses rest')⟩

end Passes

/-! ## Where a timestamp is due -/

variable {α : Type}

/-- Whether what is derived from the front of lines does not depend on the rest of them. -/
def Shifts (Derives : List Line → List Line → Prop) (lines rest : List Line) : Prop :=
  ∃ front, lines = front ++ rest ∧ ∀ rest', Derives (front ++ rest') rest'

theorem Many.shift {Derives : α → List Line → List Line → Prop} {xs : List α}
    {lines rest : List Line} (h : Many Derives xs lines rest) (hrest : rest ≠ [])
    (hone : ∀ {x lines rest}, Derives x lines rest → rest ≠ [] → Shifts (Derives x) lines rest) :
    Shifts (Many Derives xs) lines rest := by
  induction h with
  | nil => exact ⟨[], rfl, fun _ => .nil⟩
  | cons head _ ih =>
      obtain ⟨front', rfl, htail⟩ := ih hrest
      obtain ⟨front, rfl, hhead⟩ :=
        hone head (List.append_ne_nil_of_right_ne_nil front' hrest)
      refine ⟨front ++ front', (List.append_assoc ..).symm, fun rest' => ?_⟩
      rw [List.append_assoc]
      exact .cons (hhead _) (htail rest')

theorem Object.Derives.shift {o : Object} {lines rest : List Line} (h : o.Derives lines rest)
    (hrest : rest ≠ []) : Shifts o.Derives lines rest := by
  obtain ⟨last, rfl, hlast⟩ := h.derived
  -- An object that ends with the text leaves nothing, so this one ends with an empty line.
  generalize hending : o.ending = ending at hlast
  cases hlast with
  | emptyLine =>
      refine ⟨o.uri :: o.timestamp :: (o.rows ++ [[]]), by simp, fun rest' => ?_⟩
      exact ⟨h.uri, h.timestamp, h.rows, [] :: rest', by simp, hending ▸ .emptyLine⟩
  | endOfText => exact absurd rfl hrest

theorem Group.Derives.shift {g : Group} {lines rest : List Line} (h : g.Derives lines rest)
    (hrest : rest ≠ []) : Shifts g.Derives lines rest := by
  obtain ⟨objects, last, rfl, hobjects, hlast⟩ := h.derived
  generalize hending : g.ending = ending at hlast
  cases hlast with
  | @emptyLines more =>
      obtain ⟨front, rfl, hfront⟩ :=
        hobjects.shift (List.cons_ne_nil _ _) Object.Derives.shift
      refine ⟨g.name :: (front ++ [] :: List.replicate more []), by simp, fun rest' => ?_⟩
      exact ⟨h.name, front ++ [] :: (List.replicate more [] ++ rest'),
        [] :: (List.replicate more [] ++ rest'), by simp, hfront _, hending ▸ .emptyLines⟩
  | endOfText => exact absurd rfl hrest

/-- Whether a timestamp is due depends on the lines before it only. -/
theorem Due.shift {lines rest : List Line} (h : Due lines rest) : Shifts Due lines rest := by
  obtain ⟨count, gs, name, os, uri, groups, objects, rfl, hgs, hname, hos, huri⟩ := h
  obtain ⟨front', rfl, hobjects⟩ :=
    hos.shift (List.cons_ne_nil _ _) Object.Derives.shift
  obtain ⟨front, rfl, hgroups⟩ :=
    hgs.shift (List.cons_ne_nil _ _) Group.Derives.shift
  refine ⟨List.replicate count [] ++ (front ++ name :: (front' ++ [uri])), by simp, fun rest' => ?_⟩
  exact ⟨count, gs, name, os, uri, front ++ name :: (front' ++ uri :: rest'),
    front' ++ uri :: rest', by simp, hgroups _, hname, hobjects _, huri⟩

/-- Whether a line of a text is the URI of an object. Lines are counted from one. -/
def IsUriLine (lines : List Line) (k : Nat) : Prop := Due lines (lines.drop k)

variable {lines : List Line} {full : List Sample}

/-- What is due at the end of the first lines is due there in the whole. -/
theorem isUriLine_iff (lines : List Line) (k : Nat) :
    IsUriLine lines k ↔ Due (lines.take k) [] := by
  constructor
  · intro h
    obtain ⟨front, hfront, hdue⟩ := h.shift
    have hlines : front ++ lines.drop k = lines.take k ++ lines.drop k := by
      rw [← hfront, List.take_append_drop]
    have hempty := hdue []
    rwa [List.append_nil, List.append_cancel_right hlines] at hempty
  · intro h
    obtain ⟨front, hfront, hdue⟩ := h.shift
    rw [List.append_nil] at hfront
    have hrest := hdue (lines.drop k)
    rwa [← hfront, List.take_append_drop] at hrest

/-- The first lines of a text that is read cannot miss a timestamp but at their end. -/
theorem derives_of_not_isUriLine {k : Nat} (h : Sample.readFrom 0 .group lines = .ok full)
    (huri : ¬ IsUriLine lines k) : ∃ t : Text, t.Derives (lines.take k) := by
  rcases exists_text (lines.take k) with ht | ⟨rest, hdue, hmissing⟩
  · exact ht
  obtain ⟨front, hfront, hshift⟩ := hdue.shift
  cases rest with
  | nil => exact absurd ((isUriLine_iff lines k).2 hdue) huri
  | cons line rest =>
      have hwhole := hshift (line :: rest ++ lines.drop k)
      rw [← List.append_assoc, ← hfront, List.take_append_drop] at hwhole
      obtain ⟨f, hf, -⟩ := hwhole.readFrom (missing_cons (hmissing line rest rfl))
      exact nomatch h.symm.trans hf

/-- What the first lines are read as, if they can be read, is the whole cut short. -/
theorem cutShort_of_readFrom {k : Nat} {found : List Sample}
    (h : Sample.readFrom 0 .group lines = .ok full)
    (hfound : Sample.readFrom 0 .group (lines.take k) = .ok found) :
    Sample.CutShort found full := by
  rw [← List.take_append_drop k lines] at h
  obtain ⟨place, samples, hpasses⟩ := Passes.exists_front h
  obtain ⟨passed, -, hwhole⟩ := hpasses (lines.drop k)
  obtain ⟨passed', -, hfront⟩ := hpasses []
  rw [hwhole] at h
  rw [List.append_nil] at hfront
  rw [hfront] at hfound
  cases hrest : Sample.readFrom (0 + passed) place (lines.drop k) with
  | error f =>
      rw [hrest] at h
      cases h
  | ok more =>
      rw [hrest] at h
      obtain rfl := Except.ok.inj h
      cases place with
      | group | object group =>
          obtain rfl := Except.ok.inj hfound
          show Sample.CutShort (samples ++ []) (samples ++ more)
          rw [List.append_nil]
          exact Sample.cutShort_append samples more
      | timestamp group uri => cases hfound
      | rows s =>
          obtain rfl := Except.ok.inj hfound
          obtain ⟨whole, after, rfl, hbegins⟩ := Sample.begins_of_readFrom hrest
          exact .inr ⟨samples, s, whole, after, rfl, rfl, hbegins⟩

/-! ## Texts -/

theorem lines_cut {text cut : List Char} {k : Nat}
    (hcut : Splits cut ((Sample.splitLines text).take k)) :
    Sample.lines cut = (Sample.lines text).take k := by
  rw [Sample.lines, ← splits_iff.1 hcut, List.map_take, Sample.lines]

/-- If only the first lines of a text are left, with or without the line feed at their end, nothing
is invented. The reading fails if and only if the last line that is left is the URI of an object,
and says that the data end there. Otherwise it gives the first samples of the whole text, of which
the last one may lack rows. -/
theorem readText_cut {text : List Char} {full : List Sample}
    (h : Sample.readText text = .ok full) (k : Nat) {cut : List Char}
    (hcut : Splits cut ((Sample.splitLines text).take k)) :
    (IsUriLine (Sample.lines text) k → ∃ f, Sample.readText cut = .error f ∧
      f.kind = .unmarshal ∧ f.message = "metrics data ends before the timestamp line") ∧
    (¬ IsUriLine (Sample.lines text) k → ∃ found, Sample.readText cut = .ok found ∧
      Sample.CutShort found full) := by
  rw [Sample.readText] at h
  rw [Sample.readText, lines_cut hcut]
  constructor
  · intro huri
    obtain ⟨group, uri, samples, passed, -, hread⟩ := ((isUriLine_iff _ k).1 huri).passes
    refine ⟨.ofCause .metricsCutOff, ?_, rfl, rfl⟩
    rw [hread]
    rfl
  · intro huri
    obtain ⟨t, ht⟩ := derives_of_not_isUriLine h huri
    exact ⟨t.samples, ht.readFrom, cutShort_of_readFrom h ht.readFrom⟩

/-- Of five lines, the first two end with the URI, and the first four lack the last row. -/
theorem readText_cut_object :
    let text := "\"g\"\n\"/o\"\n5\n1\n2\n".toList
    let full : List Sample := [⟨"g", "/o", 5, [[.integer 1], [.integer 2]]⟩]
    Sample.readText text = .ok full ∧
    (IsUriLine (Sample.lines text) 2 ∧ ∃ f, Sample.readText "\"g\"\n\"/o\"".toList = .error f ∧
      f.kind = .unmarshal ∧ f.message = "metrics data ends before the timestamp line") ∧
    ¬ IsUriLine (Sample.lines text) 4 ∧
      ∃ found, Sample.readText "\"g\"\n\"/o\"\n5\n1\n".toList = .ok found ∧
        Sample.CutShort found full := by
  intro text full
  have h : Sample.readText text = .ok full := by rfl
  have htwo : Splits "\"g\"\n\"/o\"".toList ((Sample.splitLines text).take 2) :=
    splits_iff.2 (by decide +kernel)
  have hfour : Splits "\"g\"\n\"/o\"\n5\n1\n".toList ((Sample.splitLines text).take 4) :=
    splits_iff.2 (by decide +kernel)
  have huri : IsUriLine (Sample.lines text) 2 := by
    have hlines : Sample.lines text =
        ["\"g\"".toList, "\"/o\"".toList, "5".toList, "1".toList, "2".toList] := by decide +kernel
    rw [IsUriLine, hlines]
    exact ⟨0, [], _, [], _, _, _, rfl, .nil, by decide, .nil, by decide⟩
  have hrow : ¬ IsUriLine (Sample.lines text) 4 := by
    intro hdue
    obtain ⟨f, hf, -⟩ := (readText_cut h 4 hfour).1 hdue
    have hread : Sample.readText "\"g\"\n\"/o\"\n5\n1\n".toList =
        .ok [⟨"g", "/o", 5, [[.integer 1]]⟩] := by rfl
    exact nomatch hread.symm.trans hf
  exact ⟨h, ⟨huri, (readText_cut h 2 htwo).1 huri⟩, hrow, (readText_cut h 4 hfour).2 hrow⟩

end Grammar

end HmcClient
