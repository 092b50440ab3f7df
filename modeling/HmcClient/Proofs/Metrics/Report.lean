import HmcClient.Metrics.Sample
import HmcClient.Proofs.Metrics.Row

/-!
# Reports that are written and read back

The format in which the console reports metrics, as a printer, and the fact that the reader gives
back what was printed. A report is made of groups, a group of objects and an object of rows; each of
them knows its lines, and the lines of the whole are those of its parts in order.

Not every text can be written. A line feed would end the line it stands on, so no name, URI or
string contains one. Names and URIs are not protected against quotes, so they contain none. A row
without items would be an empty line, and that closes the block of an object. The types below leave
these out, and everything they admit comes back: the empty name, names with blanks or carriage
returns at their ends, groups without objects and objects without rows included.

The reader is at one of four places between two lines. What it makes of the lines of a part is
stated with what it makes of the rest after them, at any line number, because the number of the line
is only told to those who read about a bad timestamp.
-/

namespace HmcClient

namespace Report

/-! ## What can be reported -/

/-- A name or URI. -/
structure Name where
  text : String
  noLineFeed : '\n' ∉ text.toList
  noQuote : '"' ∉ text.toList

/-- One value of a row. -/
inductive Item where
  | integer (n : Int64)
  | boolean (b : Bool)
  | string (s : String) (noLineFeed : '\n' ∉ s.toList)

/-- The values on one line. -/
structure Row where
  items : List Item
  nonempty : items ≠ []

/-- What is reported for one object. -/
structure Object where
  uri : Name
  timestamp : Int64
  rows : List Row

/-- The objects of one group. More than one empty line may follow. -/
structure Group where
  name : Name
  objects : List Object
  extraLines : Nat

/-! ## How it is written -/

def Name.line (n : Name) : List Char := '"' :: (n.text.toList ++ ['"'])

def Item.field : Item → List Char
  | integer n => Literal.digits n.toInt
  | boolean b => (if b then "true" else "false").toList
  | string s _ => MetricValue.quoted s.toList

def Row.line (r : Row) : List Char := HmcClient.Row.join (r.items.map Item.field)

def Object.lines (o : Object) : List (List Char) :=
  o.uri.line :: Literal.digits o.timestamp.toInt :: (o.rows.map Row.line ++ [[]])

def Group.lines (g : Group) : List (List Char) :=
  g.name.line :: (g.objects.flatMap Object.lines ++ List.replicate (g.extraLines + 1) [])

/-- The text of a report: each line ends with a line feed. -/
def text (groups : List Group) : List Char :=
  (groups.flatMap Group.lines).flatMap (· ++ ['\n'])

/-! ## What is read -/

def Item.value : Item → MetricValue
  | integer n => .integer n.toInt
  | boolean b => .boolean b
  | string s _ => .string s

def Row.values (r : Row) : List MetricValue := r.items.map Item.value

def Object.sample (group : Name) (o : Object) : Sample :=
  ⟨group.text, o.uri.text, o.timestamp.toInt, o.rows.map Row.values⟩

def Group.samples (g : Group) : List Sample := g.objects.map (Object.sample g.name)

/-! ## Lines

A line can be told from its neighbours if it has no line feed in it and no carriage return at its
end. -/

/-- A text that stays the same as a line. -/
structure IsLine (cs : List Char) : Prop where
  noLineFeed : '\n' ∉ cs
  noReturn : cs.getLast? ≠ some '\r'

theorem splitLines_line {l : List Char} (hl : '\n' ∉ l) (rest : List Char) :
    Sample.splitLines (l ++ '\n' :: rest) = l :: Sample.splitLines rest := by
  induction l with
  | nil => rfl
  | cons c l ih =>
      rw [List.mem_cons, not_or] at hl
      rw [List.cons_append, Sample.splitLines, if_neg (Ne.symm hl.1), ih hl.2]

theorem splitLines_append {ls : List (List Char)} (h : ∀ l ∈ ls, '\n' ∉ l) (rest : List Char) :
    Sample.splitLines (ls.flatMap (· ++ ['\n']) ++ rest) = ls ++ Sample.splitLines rest := by
  induction ls with
  | nil => rfl
  | cons l ls ih =>
      rw [List.flatMap_cons, List.append_assoc, List.append_assoc, List.singleton_append,
        splitLines_line (h l List.mem_cons_self), ih fun m hm => h m (List.mem_cons_of_mem l hm),
        List.cons_append]

theorem splitLines_text {ls : List (List Char)} (h : ∀ l ∈ ls, '\n' ∉ l) :
    Sample.splitLines (ls.flatMap (· ++ ['\n'])) = ls := by
  have hls := splitLines_append h []
  rwa [List.append_nil, Sample.splitLines, List.append_nil] at hls

theorem dropEndWhile_of_isLine {cs : List Char} (h : IsLine cs) :
    Blank.dropEndWhile (· == '\r') cs = cs := by
  rcases List.eq_nil_or_concat cs with rfl | ⟨front, last, rfl⟩
  · rfl
  · have hlast := h.noReturn
    rw [List.concat_eq_append] at hlast ⊢
    rw [List.getLast?_concat, ne_eq, Option.some.injEq] at hlast
    exact Blank.dropEndWhile_concat front (by simpa using hlast)

theorem lines_text {ls : List (List Char)} (h : ∀ l ∈ ls, IsLine l) :
    Sample.lines (ls.flatMap (· ++ ['\n'])) = ls := by
  rw [Sample.lines, splitLines_text fun l hl => (h l hl).noLineFeed]
  calc ls.map (Blank.dropEndWhile (· == '\r'))
    _ = ls.map id := List.map_congr_left fun l hl => dropEndWhile_of_isLine (h l hl)
    _ = ls := List.map_id ls

theorem isLine_nil : IsLine [] := ⟨List.not_mem_nil, by decide⟩

theorem isLine_quoted {cs : List Char} (h : '\n' ∉ cs) : IsLine ('"' :: (cs ++ ['"'])) where
  noLineFeed := by
    rw [List.mem_cons, List.mem_append, List.mem_singleton]
    rintro (h' | h' | h')
    · exact absurd h' (by decide)
    · exact h h'
    · exact absurd h' (by decide)
  noReturn := by
    rw [← List.cons_append, List.getLast?_concat]
    decide

theorem isLine_append {cs ds : List Char} (hcs : IsLine cs) (hds : IsLine ds) :
    IsLine (cs ++ ',' :: ds) where
  noLineFeed := by
    rw [List.mem_append, List.mem_cons]
    rintro (h | h | h)
    · exact hcs.noLineFeed h
    · exact absurd h (by decide)
    · exact hds.noLineFeed h
  noReturn := by
    rcases List.eq_nil_or_concat ds with rfl | ⟨front, last, rfl⟩
    · rw [List.getLast?_concat]
      decide
    · have hlast := hds.noReturn
      rw [List.concat_eq_append] at hlast ⊢
      rw [← List.cons_append, ← List.append_assoc, List.getLast?_concat]
      rwa [List.getLast?_concat] at hlast

theorem isLine_join {fields : List (List Char)} (h : ∀ field ∈ fields, IsLine field) :
    IsLine (HmcClient.Row.join fields) := by
  induction fields with
  | nil => exact isLine_nil
  | cons field fields ih =>
      have hrest := ih fun other hother => h other (List.mem_cons_of_mem field hother)
      cases fields with
      | nil => exact h field List.mem_cons_self
      | cons next fields => exact isLine_append (h field List.mem_cons_self) hrest

theorem isLine_digits (n : Int) : IsLine (Literal.digits n) where
  noLineFeed := Literal.not_mem_digits (by decide) (by decide)
  noReturn h := Literal.not_mem_digits (by decide) (by decide) (List.mem_of_getLast? h)

theorem Item.isLine (i : Item) : IsLine i.field := by
  cases i with
  | integer n => exact isLine_digits n.toInt
  | boolean b => cases b <;> exact ⟨by decide, by decide⟩
  | string s hs =>
      refine isLine_quoted fun h => ?_
      obtain ⟨c, hc, h⟩ := List.mem_flatMap.1 h
      split at h
      · exact absurd h (by decide)
      · obtain rfl := List.mem_singleton.1 h
        exact hs hc

theorem Object.isLine (o : Object) : ∀ l ∈ o.lines, IsLine l := by
  intro l hl
  simp only [Object.lines, List.mem_cons, List.mem_append, List.mem_map, List.not_mem_nil,
    or_false] at hl
  rcases hl with rfl | rfl | ⟨r, -, rfl⟩ | rfl
  · exact isLine_quoted o.uri.noLineFeed
  · exact isLine_digits o.timestamp.toInt
  · refine isLine_join fun field hfield => ?_
    obtain ⟨i, -, rfl⟩ := List.mem_map.1 hfield
    exact i.isLine
  · exact isLine_nil

theorem Group.isLine (g : Group) : ∀ l ∈ g.lines, IsLine l := by
  intro l hl
  simp only [Group.lines, List.mem_cons, List.mem_append, List.mem_flatMap] at hl
  rcases hl with rfl | ⟨o, -, hl⟩ | hl
  · exact isLine_quoted g.name.noLineFeed
  · exact o.isLine l hl
  · obtain rfl := List.eq_of_mem_replicate hl
    exact isLine_nil

/-! ## Parts of a line -/

theorem Name.unquote_line (n : Name) : Sample.unquote n.line = n.text := by
  have htrim : Blank.trim n.line = n.line :=
    Blank.trimWhile_of_ends n.text.toList (by decide) (by decide)
  rw [Sample.unquote, htrim, Name.line, MetricValue.unquote?_quoted, Option.getD_some,
    String.ofList_toList]

theorem Item.ofField_field (i : Item) : MetricValue.ofField i.field = i.value := by
  cases i with
  | integer n => exact MetricValue.ofField_digits n.le_toInt (Int.le_of_lt_add_one n.toInt_lt)
  | boolean b => cases b <;> decide
  | string s _ => exact MetricValue.ofField_quoted s

theorem Item.closes_field (i : Item) : HmcClient.Row.closes false i.field = true := by
  cases i with
  | integer n =>
      exact HmcClient.Row.closes_of_plain (Literal.not_mem_digits (by decide) (by decide))
        (Literal.not_mem_digits (by decide) (by decide))
  | boolean b => cases b <;> decide
  | string s _ => exact HmcClient.Row.closes_quoted s.toList

theorem Item.field_ne_nil (i : Item) : i.field ≠ [] := by
  cases i with
  | integer n => exact Literal.digits_ne_nil n.toInt
  | boolean b => cases b <;> decide
  | string s _ => exact List.cons_ne_nil _ _

theorem Row.values_line (r : Row) : HmcClient.Row.values r.line = r.values := by
  have hsplit : HmcClient.Row.split r.line = r.items.map Item.field := by
    refine HmcClient.Row.split_join (by simpa using r.nonempty) fun field hfield => ?_
    obtain ⟨i, -, rfl⟩ := List.mem_map.1 hfield
    exact i.closes_field
  rw [HmcClient.Row.values, hsplit, List.map_map, Row.values]
  exact List.map_congr_left fun i _ => i.ofField_field

theorem Row.line_ne_nil (r : Row) : r.line ≠ [] := by
  obtain ⟨i, items, hitems⟩ := List.exists_cons_of_ne_nil r.nonempty
  rw [Row.line, hitems]
  cases items with
  | nil => exact i.field_ne_nil
  | cons j items =>
      show i.field ++ ',' :: _ ≠ []
      exact List.append_ne_nil_of_right_ne_nil _ (List.cons_ne_nil _ _)

theorem readInt64_timestamp (n : Int64) :
    Literal.readInt64 (Blank.trim (Literal.digits n.toInt)) = .ok n.toInt := by
  rw [Literal.trim_digits]
  exact Literal.readInt64_digits n.le_toInt (Int.le_of_lt_add_one n.toInt_lt)

/-! ## The reader, place by place -/

variable {rest : List (List Char)} {samples : List Sample}

theorem readFrom_rows {group : String}
    (h : ∀ n, Sample.readFrom n (.object group) rest = .ok samples) (uri : String) (t : Int)
    (rows : List Row) : ∀ (n : Nat) (before : List (List MetricValue)),
      Sample.readFrom n (.rows ⟨group, uri, t, before⟩) (rows.map Row.line ++ [] :: rest) =
        .ok (⟨group, uri, t, before ++ rows.map Row.values⟩ :: samples) := by
  induction rows with
  | nil =>
      intro n before
      rw [List.map_nil, List.nil_append, Sample.readFrom, if_pos List.isEmpty_nil, h,
        List.map_nil, List.append_nil]
      rfl
  | cons r rows ih =>
      intro n before
      rw [List.map_cons, List.cons_append, Sample.readFrom,
        if_neg (by simpa using r.line_ne_nil), r.values_line, ih (n + 1), List.map_cons,
        List.append_assoc, List.singleton_append]

theorem readFrom_object {group : Name}
    (h : ∀ n, Sample.readFrom n (.object group.text) rest = .ok samples) (o : Object) (n : Nat) :
    Sample.readFrom n (.object group.text) (o.lines ++ rest) =
      .ok (o.sample group :: samples) := by
  rw [Object.lines, List.cons_append, List.cons_append, List.append_assoc, List.singleton_append,
    Sample.readFrom, if_neg (by simp [Name.line]), o.uri.unquote_line, Sample.readFrom,
    readInt64_timestamp]
  exact readFrom_rows h o.uri.text o.timestamp.toInt o.rows (n + 2) []

theorem readFrom_objects {group : Name}
    (h : ∀ n, Sample.readFrom n (.object group.text) rest = .ok samples) (os : List Object) :
    ∀ n, Sample.readFrom n (.object group.text) (os.flatMap Object.lines ++ rest) =
      .ok (os.map (Object.sample group) ++ samples) := by
  induction os with
  | nil => exact h
  | cons o os ih =>
      intro n
      rw [List.flatMap_cons, List.append_assoc]
      exact readFrom_object ih o n

theorem readFrom_empty (h : ∀ n, Sample.readFrom n .group rest = .ok samples) (count : Nat) :
    ∀ n, Sample.readFrom n .group (List.replicate count [] ++ rest) = .ok samples := by
  induction count with
  | zero => exact h
  | succ count ih => exact fun n => ih (n + 1)

theorem readFrom_group (h : ∀ n, Sample.readFrom n .group rest = .ok samples) (g : Group)
    (n : Nat) : Sample.readFrom n .group (g.lines ++ rest) = .ok (g.samples ++ samples) := by
  have hend : ∀ m, Sample.readFrom m (.object g.name.text)
      (List.replicate (g.extraLines + 1) [] ++ rest) = .ok samples := by
    intro m
    exact readFrom_empty h g.extraLines (m + 1)
  rw [Group.lines, List.cons_append, Sample.readFrom, if_neg (by simp [Name.line]),
    g.name.unquote_line, List.append_assoc]
  exact readFrom_objects hend g.objects (n + 1)

theorem readFrom_groups (gs : List Group) :
    ∀ n, Sample.readFrom n .group (gs.flatMap Group.lines) = .ok (gs.flatMap Group.samples) := by
  induction gs with
  | nil => exact fun _ => rfl
  | cons g gs ih => exact readFrom_group ih g

/-! ## The round trip -/

/-- Reading a printed report gives one sample for each of its objects, in order, with the name of
the group, the URI, the timestamp and the rows that were printed. -/
theorem readText_text (groups : List Group) :
    Sample.readText (text groups) = .ok (groups.flatMap Group.samples) := by
  have hlines : ∀ l ∈ groups.flatMap Group.lines, IsLine l := by
    intro l hl
    obtain ⟨g, -, hl⟩ := List.mem_flatMap.1 hl
    exact g.isLine l hl
  rw [Sample.readText, text, lines_text hlines]
  exact readFrom_groups groups 0

example : text [⟨⟨"cpc", by decide, by decide⟩,
    [⟨⟨"/api/cpcs/1", by decide, by decide⟩, -5,
      [⟨[.integer 12, .boolean true, .string "a, \"b\"" (by decide)], by decide⟩]⟩], 0⟩] =
    "\"cpc\"\n\"/api/cpcs/1\"\n-5\n12,true,\"a, \"\"b\"\"\"\n\n\n".toList := by
  decide

end Report

end HmcClient
