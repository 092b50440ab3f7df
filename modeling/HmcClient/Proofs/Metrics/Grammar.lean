import HmcClient.Metrics.Sample
import HmcClient.Proofs.Metrics.Report

/-!
# The grammar of metrics texts

A metrics text is described without the reader, by what its lines derive from:

    text   := empty* group*
    group  := name object* (empty empty* | end)
    object := uri timestamp row* (empty | end)

Names, URIs and rows are lines that are not empty, and a timestamp is a line that is an integer of
64 bits once the blanks around it are dropped. `end` is the end of the text. A derivation is kept as
a tree, so that one can ask how many there are and which samples it stands for.

The reader and the grammar are compared by taking a text apart. Of any lines, as many objects are
taken as there are, then as many groups; what is then left is nothing, or it starts where the text
breaks off or a timestamp is missing. Each of these steps is one that the reader takes too, so what
it gives is known in every case. That the parts can be taken in one way only makes the derivation
unique, and the place where it breaks off as well.
-/

namespace HmcClient

/-! ## The grammar -/

namespace Grammar

/-- A line of a text. -/
abbrev Line := List Char

/-- What ends an object. -/
inductive Object.Ending where
  | emptyLine
  | endOfText

/-- What is derived from `object`. -/
structure Object where
  uri : Line
  timestamp : Line
  /-- What the timestamp says. -/
  time : Int
  rows : List Line
  ending : Object.Ending

/-- What ends a group: an empty line and any number of more, or the end of the text. -/
inductive Group.Ending where
  | emptyLines (more : Nat)
  | endOfText

/-- What is derived from `group`. -/
structure Group where
  name : Line
  objects : List Object
  ending : Group.Ending

/-- What is derived from `text`. -/
structure Text where
  emptyLines : Nat
  groups : List Group

variable {α : Type}

/-- One derivation after the other. As with all relations here, the second list of lines is what is
left of the first. -/
inductive Many (Derives : α → List Line → List Line → Prop) : List α → List Line → List Line → Prop
  | nil {lines : List Line} : Many Derives [] lines lines
  | cons {x : α} {xs : List α} {lines between rest : List Line} (head : Derives x lines between)
    (tail : Many Derives xs between rest) : Many Derives (x :: xs) lines rest

inductive Object.Ending.Derives : Object.Ending → List Line → List Line → Prop
  | emptyLine {rest : List Line} : Derives .emptyLine ([] :: rest) rest
  | endOfText : Derives .endOfText [] []

/-- An object derives its URI, its timestamp, its rows and its end. -/
structure Object.Derives (o : Object) (lines rest : List Line) : Prop where
  uri : o.uri ≠ []
  timestamp : Literal.IsInt64 (Blank.trim o.timestamp) o.time
  rows : ∀ row ∈ o.rows, row ≠ []
  derived : ∃ last, lines = o.uri :: o.timestamp :: (o.rows ++ last) ∧ o.ending.Derives last rest

inductive Group.Ending.Derives : Group.Ending → List Line → List Line → Prop
  | emptyLines {more : Nat} {rest : List Line} :
    Derives (.emptyLines more) ([] :: (List.replicate more [] ++ rest)) rest
  | endOfText : Derives .endOfText [] []

/-- A group derives its name, its objects and its end. -/
structure Group.Derives (g : Group) (lines rest : List Line) : Prop where
  name : g.name ≠ []
  derived : ∃ objects last, lines = g.name :: objects ∧
    Many Object.Derives g.objects objects last ∧ g.ending.Derives last rest

/-- A text derives all its lines. -/
def Text.Derives (t : Text) (lines : List Line) : Prop :=
  ∃ groups, lines = List.replicate t.emptyLines [] ++ groups ∧ Many Group.Derives t.groups groups []

/-- Whether a timestamp is due where only `rest` is left of the lines: what comes before is derived
from `empty* group* name object* uri`. -/
def Due (lines rest : List Line) : Prop :=
  ∃ (emptyLines : Nat) (groups : List Group) (name : Line) (objects : List Object) (uri : Line)
    (afterEmpty afterName : List Line),
    lines = List.replicate emptyLines [] ++ afterEmpty ∧
      Many Group.Derives groups afterEmpty (name :: afterName) ∧ name ≠ [] ∧
      Many Object.Derives objects afterName (uri :: rest) ∧ uri ≠ []

/-- Whether a line can stand where a timestamp is due. -/
def IsTimestamp (line : Line) : Prop := ∃ time, Literal.IsInt64 (Blank.trim line) time

/-- The sample that an object of a group stands for. -/
def Object.sample (group : String) (o : Object) : Sample :=
  ⟨group, Sample.unquote o.uri, o.time, o.rows.map Row.values⟩

def Group.samples (g : Group) : List Sample :=
  g.objects.map (Object.sample (Sample.unquote g.name))

/-- The samples that a derivation stands for, one for each of its objects. -/
def Text.samples (t : Text) : List Sample := t.groups.flatMap Group.samples

/-! ## Derivations in one way only -/

/-- Whether nothing can be derived at the start of lines. -/
def Stops (Derives : α → List Line → List Line → Prop) (lines : List Line) : Prop :=
  ∀ x rest, ¬ Derives x lines rest

/-- If every derivation is fixed by where it starts, provided that it is followed by lines of a kind
with which every derivation starts, so are many of them. -/
theorem Many.unique {Derives : α → List Line → List Line → Prop} (Starts : List Line → Prop)
    (hstarts : ∀ {x lines rest}, Derives x lines rest → Starts lines)
    (hunique : ∀ {x y lines rest rest'}, Derives x lines rest → Derives y lines rest' →
      Starts rest → Starts rest' → x = y ∧ rest = rest')
    {xs ys : List α} {lines rest rest' : List Line} (hxs : Many Derives xs lines rest)
    (hys : Many Derives ys lines rest') (hrest : Starts rest ∧ Stops Derives rest)
    (hrest' : Starts rest' ∧ Stops Derives rest') : xs = ys ∧ rest = rest' := by
  have hmany : ∀ {zs between last}, Many Derives zs between last → Starts last → Starts between := by
    intro zs between last h hlast
    cases h with
    | nil => exact hlast
    | cons head _ => exact hstarts head
  induction hxs generalizing ys with
  | nil =>
      cases hys with
      | nil => exact ⟨rfl, rfl⟩
      | cons head _ => exact absurd head (hrest.2 _ _)
  | cons head tail ih =>
      cases hys with
      | nil => exact absurd head (hrest'.2 _ _)
      | cons head' tail' =>
          obtain ⟨rfl, rfl⟩ := hunique head head' (hmany tail hrest.1) (hmany tail' hrest'.1)
          obtain ⟨rfl, rfl⟩ := ih tail' hrest
          exact ⟨rfl, rfl⟩

theorem Object.Ending.Derives.cases {e : Object.Ending} {last rest : List Line}
    (h : e.Derives last rest) : last = [] ∨ ∃ after, last = [] :: after := by
  cases h with
  | emptyLine => exact .inr ⟨_, rfl⟩
  | endOfText => exact .inl rfl

theorem Object.Ending.Derives.unique {e e' : Object.Ending} {last rest rest' : List Line}
    (h : e.Derives last rest) (h' : e'.Derives last rest') : e = e' ∧ rest = rest' := by
  cases h with
  | emptyLine => cases h'; exact ⟨rfl, rfl⟩
  | endOfText => cases h'; exact ⟨rfl, rfl⟩

/-- Rows end where the first empty line is. -/
theorem rows_unique {rows rows' last last' : List Line} (h : rows ++ last = rows' ++ last')
    (hrows : ∀ row ∈ rows, row ≠ []) (hrows' : ∀ row ∈ rows', row ≠ [])
    (hlast : last = [] ∨ ∃ after, last = [] :: after)
    (hlast' : last' = [] ∨ ∃ after, last' = [] :: after) : rows = rows' ∧ last = last' := by
  induction rows generalizing rows' with
  | nil =>
      cases rows' with
      | nil => exact ⟨rfl, h⟩
      | cons row rows' =>
          rcases hlast with rfl | ⟨after, rfl⟩
          · cases h
          · obtain ⟨rfl, -⟩ := List.cons.inj h
            exact absurd rfl (hrows' [] List.mem_cons_self)
  | cons row rows ih =>
      cases rows' with
      | nil =>
          rcases hlast' with rfl | ⟨after, rfl⟩
          · cases h
          · obtain ⟨rfl, -⟩ := List.cons.inj h
            exact absurd rfl (hrows [] List.mem_cons_self)
      | cons row' rows' =>
          obtain ⟨rfl, htail⟩ := List.cons.inj h
          obtain ⟨rfl, rfl⟩ := ih htail (fun r hr => hrows r (List.mem_cons_of_mem row hr))
            (fun r hr => hrows' r (List.mem_cons_of_mem row hr))
          exact ⟨rfl, rfl⟩

theorem Object.Derives.unique {o o' : Object} {lines rest rest' : List Line}
    (h : o.Derives lines rest) (h' : o'.Derives lines rest') : o = o' ∧ rest = rest' := by
  obtain ⟨uri, timestamp, time, rows, ending⟩ := o
  obtain ⟨uri', timestamp', time', rows', ending'⟩ := o'
  obtain ⟨last, rfl, hlast⟩ := h.derived
  obtain ⟨last', hlines, hlast'⟩ := h'.derived
  simp only [List.cons.injEq] at hlines
  obtain ⟨rfl, rfl, hrows⟩ := hlines
  obtain ⟨rfl, rfl⟩ := rows_unique hrows h.rows h'.rows hlast.cases hlast'.cases
  obtain ⟨rfl, rfl⟩ := hlast.unique hlast'
  obtain rfl : time = time' := h.timestamp.unique h'.timestamp
  exact ⟨rfl, rfl⟩

/-- Whether no timestamp comes first. -/
def Missing (after : List Line) : Prop := ∀ line rest, after = line :: rest → ¬ IsTimestamp line

theorem missing_or (after : List Line) : Missing after ∨ ∃ timestamp rest,
    after = timestamp :: rest ∧ IsTimestamp timestamp := by
  cases after with
  | nil => exact .inl fun _ _ h => (nomatch h)
  | cons line rest =>
      by_cases hline : IsTimestamp line
      · exact .inr ⟨line, rest, rfl, hline⟩
      · exact .inl fun _ _ h => (List.cons.inj h).1 ▸ hline

/-- Whether lines do not start with an object: at their end, at the end of a group, or where a
timestamp is missing. -/
def NoObject (lines : List Line) : Prop :=
  (lines = [] ∨ ∃ rest, lines = [] :: rest) ∨
    ∃ uri after, lines = uri :: after ∧ uri ≠ [] ∧ Missing after

theorem NoObject.stops {lines : List Line} (h : NoObject lines) : Stops Object.Derives lines := by
  rintro o rest ho
  obtain ⟨last, rfl, -⟩ := ho.derived
  rcases h with (h | ⟨_, h⟩) | ⟨uri, after, h, -, hmissing⟩
  · cases h
  · exact ho.uri (List.cons.inj h).1
  · exact hmissing _ _ (List.cons.inj h).2.symm ⟨_, ho.timestamp⟩

theorem objects_unique {os os' : List Object} {lines rest rest' : List Line}
    (h : Many Object.Derives os lines rest) (h' : Many Object.Derives os' lines rest')
    (hrest : NoObject rest) (hrest' : NoObject rest') : os = os' ∧ rest = rest' :=
  Many.unique (fun _ => True) (fun _ => trivial) (fun h h' _ _ => h.unique h') h h'
    ⟨trivial, hrest.stops⟩ ⟨trivial, hrest'.stops⟩

theorem Group.Ending.Derives.cases {e : Group.Ending} {last rest : List Line}
    (h : e.Derives last rest) : last = [] ∨ ∃ after, last = [] :: after := by
  cases h with
  | emptyLines => exact .inr ⟨_, rfl⟩
  | endOfText => exact .inl rfl

/-- Whether lines do not start with an empty one. -/
def Nonempty (lines : List Line) : Prop := ∀ rest, lines ≠ [] :: rest

theorem replicate_unique {count count' : Nat} {rest rest' : List Line}
    (h : List.replicate count [] ++ rest = List.replicate count' [] ++ rest')
    (hrest : Nonempty rest) (hrest' : Nonempty rest') : count = count' ∧ rest = rest' := by
  induction count generalizing count' with
  | zero =>
      cases count' with
      | zero => exact ⟨rfl, h⟩
      | succ count' => exact absurd h (hrest _)
  | succ count ih =>
      cases count' with
      | zero => exact absurd h.symm (hrest' _)
      | succ count' =>
          obtain ⟨rfl, rfl⟩ := ih (List.cons.inj h).2
          exact ⟨rfl, rfl⟩

theorem Group.Ending.Derives.unique {e e' : Group.Ending} {last rest rest' : List Line}
    (h : e.Derives last rest) (h' : e'.Derives last rest') (hrest : Nonempty rest)
    (hrest' : Nonempty rest') : e = e' ∧ rest = rest' := by
  cases h with
  | emptyLines =>
      generalize hlast : [] :: (_ ++ rest) = last at h'
      cases h' with
      | emptyLines =>
          obtain ⟨rfl, rfl⟩ := replicate_unique (List.cons.inj hlast).2 hrest hrest'
          exact ⟨rfl, rfl⟩
      | endOfText => cases hlast
  | endOfText => cases h'; exact ⟨rfl, rfl⟩

theorem Group.Derives.nonempty {g : Group} {lines rest : List Line} (h : g.Derives lines rest) :
    Nonempty lines := by
  rintro after hafter
  obtain ⟨objects, last, rfl, -⟩ := h.derived
  exact h.name (List.cons.inj hafter).1

theorem Group.Derives.unique {g g' : Group} {lines rest rest' : List Line}
    (h : g.Derives lines rest) (h' : g'.Derives lines rest') (hrest : Nonempty rest)
    (hrest' : Nonempty rest') : g = g' ∧ rest = rest' := by
  obtain ⟨name, os, ending⟩ := g
  obtain ⟨name', os', ending'⟩ := g'
  obtain ⟨objects, last, rfl, hobjects, hlast⟩ := h.derived
  obtain ⟨objects', last', hlines, hobjects', hlast'⟩ := h'.derived
  obtain ⟨rfl, rfl⟩ := List.cons.inj hlines
  obtain ⟨rfl, rfl⟩ := objects_unique hobjects hobjects' (.inl hlast.cases) (.inl hlast'.cases)
  obtain ⟨rfl, rfl⟩ := hlast.unique hlast' hrest hrest'
  exact ⟨rfl, rfl⟩

/-- Whether lines do not start with a group: at their end, or at a name after whose objects a
timestamp is missing. -/
def NoGroup (lines : List Line) : Prop :=
  lines = [] ∨ ∃ name afterName objects uri after, lines = name :: afterName ∧ name ≠ [] ∧
    Many Object.Derives objects afterName (uri :: after) ∧ uri ≠ [] ∧ Missing after

theorem NoGroup.nonempty {lines : List Line} (h : NoGroup lines) : Nonempty lines := by
  rintro rest rfl
  rcases h with h | ⟨_, _, _, _, _, h, hname, -⟩
  · cases h
  · exact hname (List.cons.inj h).1.symm

theorem NoGroup.stops {lines : List Line} (h : NoGroup lines) : Stops Group.Derives lines := by
  rintro g rest hg
  obtain ⟨objects, last, rfl, hobjects, hlast⟩ := hg.derived
  rcases h with h | ⟨name, afterName, os, uri, after, h, -, hos, huri, hmissing⟩
  · cases h
  · obtain ⟨-, rfl⟩ := List.cons.inj h
    obtain ⟨-, rfl⟩ := objects_unique hobjects hos (.inl hlast.cases)
      (.inr ⟨uri, after, rfl, huri, hmissing⟩)
    rcases hlast.cases with h | ⟨_, h⟩
    · cases h
    · exact huri (List.cons.inj h).1

theorem Many.nonempty {gs : List Group} {lines rest : List Line}
    (h : Many Group.Derives gs lines rest) (hrest : Nonempty rest) : Nonempty lines := by
  cases h with
  | nil => exact hrest
  | cons head _ => exact head.nonempty

theorem groups_unique {gs gs' : List Group} {lines rest rest' : List Line}
    (h : Many Group.Derives gs lines rest) (h' : Many Group.Derives gs' lines rest')
    (hrest : NoGroup rest) (hrest' : NoGroup rest') : gs = gs' ∧ rest = rest' :=
  Many.unique Nonempty Group.Derives.nonempty Group.Derives.unique h h'
    ⟨hrest.nonempty, hrest.stops⟩ ⟨hrest'.nonempty, hrest'.stops⟩

/-- A text has one derivation at most. -/
theorem Text.Derives.unique {t t' : Text} {lines : List Line} (h : t.Derives lines)
    (h' : t'.Derives lines) : t = t' := by
  obtain ⟨count, gs⟩ := t
  obtain ⟨count', gs'⟩ := t'
  obtain ⟨groups, rfl, hgroups⟩ := h
  obtain ⟨groups', hlines, hgroups'⟩ := h'
  have hend : NoGroup [] := .inl rfl
  obtain ⟨rfl, rfl⟩ := replicate_unique hlines (hgroups.nonempty hend.nonempty)
    (hgroups'.nonempty hend.nonempty)
  obtain ⟨rfl, -⟩ := groups_unique hgroups hgroups' hend hend
  rfl

/-- There is one place at most at which a timestamp is due and missing. -/
theorem Due.unique {lines rest rest' : List Line} (h : Due lines rest) (h' : Due lines rest')
    (hrest : Missing rest) (hrest' : Missing rest') : rest = rest' := by
  obtain ⟨count, gs, name, os, uri, groups, objects, rfl, hgs, hname, hos, huri⟩ := h
  obtain ⟨count', gs', name', os', uri', groups', objects', hlines, hgs', hname', hos', huri'⟩ := h'
  have hend : NoGroup (name :: objects) :=
    .inr ⟨name, objects, os, uri, rest, rfl, hname, hos, huri, hrest⟩
  have hend' : NoGroup (name' :: objects') :=
    .inr ⟨name', objects', os', uri', rest', rfl, hname', hos', huri', hrest'⟩
  obtain ⟨-, rfl⟩ := replicate_unique hlines (hgs.nonempty hend.nonempty)
    (hgs'.nonempty hend'.nonempty)
  obtain ⟨-, htail⟩ := groups_unique hgs hgs' hend hend'
  obtain ⟨-, rfl⟩ := List.cons.inj htail
  obtain ⟨-, htail⟩ := objects_unique hos hos' (.inr ⟨uri, rest, rfl, huri, hrest⟩)
    (.inr ⟨uri', rest', rfl, huri', hrest'⟩)
  exact (List.cons.inj htail).2

/-! ## Taking a text apart -/

theorem exists_rows (lines : List Line) : ∃ (rows last : List Line), lines = rows ++ last ∧
    (∀ row ∈ rows, row ≠ []) ∧ (last = [] ∨ ∃ after, last = [] :: after) := by
  induction lines with
  | nil => exact ⟨[], [], rfl, fun _ h => (nomatch h), .inl rfl⟩
  | cons line lines ih =>
      by_cases hline : line = []
      · exact ⟨[], line :: lines, rfl, fun _ h => (nomatch h), .inr ⟨lines, by rw [hline]⟩⟩
      · obtain ⟨rows, last, rfl, hrows, hlast⟩ := ih
        exact ⟨line :: rows, last, rfl, List.forall_mem_cons.2 ⟨hline, hrows⟩, hlast⟩

/-- As many objects are taken from the lines as there are. -/
theorem exists_objects (lines : List Line) : ∃ os rest, Many Object.Derives os lines rest ∧
    NoObject rest ∧ rest.length ≤ lines.length := by
  match lines with
  | [] => exact ⟨[], [], .nil, .inl (.inl rfl), Nat.le_refl _⟩
  | [] :: lines => exact ⟨[], _, .nil, .inl (.inr ⟨lines, rfl⟩), Nat.le_refl _⟩
  | (c :: cs) :: after =>
      rcases missing_or after with hmissing | ⟨timestamp, lines, hafter, time, htime⟩
      · exact ⟨[], _, .nil, .inr ⟨c :: cs, after, rfl, List.cons_ne_nil c cs, hmissing⟩,
          Nat.le_refl _⟩
      · obtain ⟨rows, last, hsplit, hrows, hlast⟩ := exists_rows lines
        obtain ⟨ending, rest, hending, hlength⟩ : ∃ (ending : Object.Ending) (rest : List Line),
            ending.Derives last rest ∧ rest.length ≤ last.length := by
          rcases hlast with rfl | ⟨rest, rfl⟩
          · exact ⟨.endOfText, [], .endOfText, Nat.le_refl _⟩
          · exact ⟨.emptyLine, rest, .emptyLine, Nat.le_succ _⟩
        have hshorter : rest.length < ((c :: cs) :: after).length := by
          simp only [hafter, hsplit, List.length_cons, List.length_append]
          omega
        obtain ⟨os, rest', hos, hrest', hle⟩ := exists_objects rest
        subst hsplit hafter
        exact ⟨⟨c :: cs, timestamp, time, rows, ending⟩ :: os, rest',
          .cons ⟨List.cons_ne_nil c cs, htime, hrows, last, rfl, hending⟩ hos, hrest',
          Nat.le_of_lt (Nat.lt_of_le_of_lt hle hshorter)⟩
termination_by lines.length
decreasing_by exact hshorter

theorem exists_emptyLines (lines : List Line) : ∃ count rest,
    lines = List.replicate count [] ++ rest ∧ Nonempty rest ∧ rest.length ≤ lines.length := by
  induction lines with
  | nil => exact ⟨0, [], rfl, fun _ h => (nomatch h), Nat.le_refl _⟩
  | cons line lines ih =>
      by_cases hline : line = []
      · obtain ⟨count, rest, rfl, hrest, hle⟩ := ih
        exact ⟨count + 1, rest, by rw [hline]; rfl, hrest, Nat.le_succ_of_le hle⟩
      · exact ⟨0, line :: lines, rfl, fun _ h => hline (List.cons.inj h).1, Nat.le_refl _⟩

/-- As many groups are taken from the lines as there are. -/
theorem exists_groups {lines : List Line} (hlines : Nonempty lines) :
    ∃ gs rest, Many Group.Derives gs lines rest ∧ NoGroup rest := by
  match lines, hlines with
  | [], _ => exact ⟨[], [], .nil, .inl rfl⟩
  | name :: afterName, hlines =>
      have hname : name ≠ [] := fun h => hlines afterName (by rw [h])
      obtain ⟨os, last, hos, hlast, hle⟩ := exists_objects afterName
      rcases hlast with (rfl | ⟨after, rfl⟩) | ⟨uri, after, rfl, huri, hmissing⟩
      · exact ⟨[⟨name, os, .endOfText⟩], [],
          .cons ⟨hname, afterName, [], rfl, hos, .endOfText⟩ .nil, .inl rfl⟩
      · obtain ⟨more, rest, rfl, hrest, hshort⟩ := exists_emptyLines after
        have hshorter : rest.length < (name :: afterName).length := by
          simp only [List.length_cons] at hle ⊢
          omega
        obtain ⟨gs, rest', hgs, hrest'⟩ := exists_groups hrest
        exact ⟨⟨name, os, .emptyLines more⟩ :: gs, rest',
          .cons ⟨hname, afterName, _, rfl, hos, .emptyLines⟩ hgs, hrest'⟩
      · exact ⟨[], _, .nil, .inr ⟨name, afterName, os, uri, after, rfl, hname, hos, huri, hmissing⟩⟩
termination_by lines.length
decreasing_by exact hshorter

/-- Either a text is derived, or there is a place at which a timestamp is due and missing. -/
theorem exists_text (lines : List Line) :
    (∃ t : Text, t.Derives lines) ∨ ∃ rest, Due lines rest ∧ Missing rest := by
  obtain ⟨count, after, rfl, hafter, -⟩ := exists_emptyLines lines
  obtain ⟨gs, rest, hgs, hrest⟩ := exists_groups hafter
  rcases hrest with rfl | ⟨name, afterName, os, uri, rest, rfl, hname, hos, huri, hmissing⟩
  · exact .inl ⟨⟨count, gs⟩, after, rfl, hgs⟩
  · exact .inr ⟨rest, ⟨count, gs, name, os, uri, after, afterName, rfl, hgs, hname, hos, huri⟩,
      hmissing⟩

/-! ## The reader -/

/-- Whether the reader comes from one place to another over the lines that are no longer left, and
has read samples meanwhile. -/
def Passes (place : Sample.Place) (lines : List Line) (place' : Sample.Place) (rest : List Line)
    (samples : List Sample) : Prop :=
  ∃ passed, lines.length = passed + rest.length ∧ ∀ n, Sample.readFrom n place lines =
    (Sample.readFrom (n + passed) place' rest).map (samples ++ ·)

namespace Passes

variable {place place' place'' : Sample.Place} {lines between rest : List Line}
  {samples samples' : List Sample}

theorem map_nil (result : Result (List Sample)) : result.map ([] ++ ·) = result := by
  cases result <;> rfl

theorem refl (place : Sample.Place) (lines : List Line) : Passes place lines place lines [] :=
  ⟨0, (Nat.zero_add _).symm, fun _ => (map_nil _).symm⟩

theorem trans (h : Passes place lines place' between samples)
    (h' : Passes place' between place'' rest samples') :
    Passes place lines place'' rest (samples ++ samples') := by
  obtain ⟨passed, hlength, hread⟩ := h
  obtain ⟨passed', hlength', hread'⟩ := h'
  refine ⟨passed + passed', by omega, fun n => ?_⟩
  rw [hread, hread', Nat.add_assoc]
  cases Sample.readFrom (n + (passed + passed')) place'' rest with
  | error failure => rfl
  | ok found => exact congrArg Except.ok (List.append_assoc samples samples' found).symm

/-- One line is passed without a sample. -/
theorem line {line : Line} (h : ∀ n, Sample.readFrom n place (line :: rest) =
    Sample.readFrom (n + 1) place' rest) : Passes place (line :: rest) place' rest [] :=
  ⟨1, Nat.add_comm _ 1, fun n => by rw [h, map_nil]⟩

theorem emptyLines (count : Nat) (rest : List Line) :
    Passes .group (List.replicate count [] ++ rest) .group rest [] := by
  induction count with
  | zero => exact refl .group rest
  | succ count ih => exact (line fun _ => rfl).trans ih

theorem rows {s : Sample} {rows last : List Line} (h : ∀ row ∈ rows, row ≠ []) :
    Passes (.rows s) (rows ++ last)
      (.rows { s with rows := s.rows ++ rows.map Row.values }) last [] := by
  induction rows generalizing s with
  | nil =>
      rw [List.map_nil, List.append_nil]
      exact refl (.rows s) last
  | cons row rows ih =>
      have hrow : row.isEmpty = false := by simpa using h row List.mem_cons_self
      have hline : Passes (.rows s) (row :: (rows ++ last))
          (.rows { s with rows := s.rows ++ [Row.values row] }) (rows ++ last) [] :=
        line fun n => by rw [Sample.readFrom, hrow]; rfl
      have hrest := hline.trans (ih fun r hr => h r (List.mem_cons_of_mem row hr))
      rwa [List.append_assoc, List.singleton_append, ← List.map_cons] at hrest

theorem objectEnding {e : Object.Ending} {last : List Line} (h : e.Derives last rest) (s : Sample) :
    Passes (.rows s) last (.object s.group) rest [s] := by
  cases h with
  | emptyLine => exact ⟨1, Nat.add_comm _ 1, fun n => rfl⟩
  | endOfText => exact ⟨0, rfl, fun n => rfl⟩

theorem object {o : Object} (h : o.Derives lines rest) (group : String) :
    Passes (.object group) lines (.object group) rest [o.sample group] := by
  obtain ⟨last, rfl, hlast⟩ := h.derived
  have huri : Passes (.object group) (o.uri :: o.timestamp :: (o.rows ++ last))
      (.timestamp group (Sample.unquote o.uri)) (o.timestamp :: (o.rows ++ last)) [] :=
    line fun n => by rw [Sample.readFrom, if_neg (by simpa using h.uri)]
  have htime : Passes (.timestamp group (Sample.unquote o.uri)) (o.timestamp :: (o.rows ++ last))
      (.rows ⟨group, Sample.unquote o.uri, o.time, []⟩) (o.rows ++ last) [] :=
    line fun n => by rw [Sample.readFrom, Literal.readInt64_eq_ok_iff.2 h.timestamp]
  exact ((huri.trans htime).trans (rows h.rows)).trans (objectEnding hlast (o.sample group))

theorem objects {os : List Object} (h : Many Object.Derives os lines rest) (group : String) :
    Passes (.object group) lines (.object group) rest (os.map (Object.sample group)) := by
  induction h with
  | nil => exact refl _ _
  | cons head _ ih => exact (object head group).trans ih

theorem name {name : Line} (hname : name ≠ []) (rest : List Line) :
    Passes .group (name :: rest) (.object (Sample.unquote name)) rest [] :=
  line fun n => by rw [Sample.readFrom, if_neg (by simpa using hname)]

theorem groupEnding {e : Group.Ending} {last : List Line} (h : e.Derives last rest)
    (group : String) : Passes (.object group) last .group rest [] := by
  cases h with
  | emptyLines => exact (line fun _ => rfl).trans (emptyLines _ rest)
  | endOfText => exact ⟨0, rfl, fun n => rfl⟩

theorem group {g : Group} (h : g.Derives lines rest) :
    Passes .group lines .group rest g.samples := by
  obtain ⟨afterName, last, rfl, hobjects, hlast⟩ := h.derived
  have hgroup := ((name h.name afterName).trans (objects hobjects _)).trans (groupEnding hlast _)
  rwa [List.nil_append, List.append_nil] at hgroup

theorem groups {gs : List Group} (h : Many Group.Derives gs lines rest) :
    Passes .group lines .group rest (gs.flatMap Group.samples) := by
  induction h with
  | nil => exact refl _ _
  | cons head _ ih => exact (group head).trans ih

end Passes

theorem Text.Derives.readFrom {t : Text} {lines : List Line} (h : t.Derives lines) :
    Sample.readFrom 0 .group lines = .ok t.samples := by
  obtain ⟨groups, rfl, hgroups⟩ := h
  obtain ⟨passed, -, hread⟩ := (Passes.emptyLines t.emptyLines groups).trans (Passes.groups hgroups)
  rw [hread, Sample.readFrom]
  exact congrArg Except.ok (List.append_nil _)

theorem Due.passes {lines rest : List Line} (h : Due lines rest) : ∃ group uri samples,
    Passes .group lines (.timestamp group uri) rest samples := by
  obtain ⟨count, gs, name, os, uri, afterEmpty, afterName, rfl, hgs, hname, hos, huri⟩ := h
  have hgroups := (Passes.emptyLines count afterEmpty).trans (Passes.groups hgs)
  have hobjects := (Passes.name hname afterName).trans (Passes.objects hos (Sample.unquote name))
  exact ⟨_, _, _, (hgroups.trans hobjects).trans
    (Passes.line fun n => by rw [Sample.readFrom, if_neg (by simpa using huri)])⟩

theorem Many.suffix {Derives : α → List Line → List Line → Prop}
    (hone : ∀ {x lines rest}, Derives x lines rest → rest <:+ lines) {xs : List α}
    {lines rest : List Line} (h : Many Derives xs lines rest) : rest <:+ lines := by
  induction h with
  | nil => exact List.suffix_refl _
  | cons head _ ih => exact ih.trans (hone head)

theorem Object.Ending.Derives.suffix {e : Object.Ending} {last rest : List Line}
    (h : e.Derives last rest) : rest <:+ last := by
  cases h with
  | emptyLine => exact List.suffix_cons [] rest
  | endOfText => exact List.suffix_refl []

theorem Object.Derives.suffix {o : Object} {lines rest : List Line} (h : o.Derives lines rest) :
    rest <:+ lines := by
  obtain ⟨last, rfl, hlast⟩ := h.derived
  exact hlast.suffix.trans ⟨o.uri :: o.timestamp :: o.rows, rfl⟩

theorem Group.Ending.Derives.suffix {e : Group.Ending} {last rest : List Line}
    (h : e.Derives last rest) : rest <:+ last := by
  cases h with
  | emptyLines => exact (List.suffix_append _ rest).trans (List.suffix_cons [] _)
  | endOfText => exact List.suffix_refl []

theorem Group.Derives.suffix {g : Group} {lines rest : List Line} (h : g.Derives lines rest) :
    rest <:+ lines := by
  obtain ⟨objects, last, rfl, hobjects, hlast⟩ := h.derived
  exact (hlast.suffix.trans (hobjects.suffix Object.Derives.suffix)).trans
    (List.suffix_cons g.name objects)

theorem Due.suffix {lines rest : List Line} (h : Due lines rest) : rest <:+ lines := by
  obtain ⟨count, gs, name, os, uri, afterEmpty, afterName, rfl, hgs, -, hos, -⟩ := h
  have hname := (List.suffix_cons uri rest).trans (hos.suffix Object.Derives.suffix)
  have hgroups := (List.suffix_cons name afterName).trans (hgs.suffix Group.Derives.suffix)
  exact (hname.trans hgroups).trans (List.suffix_append _ afterEmpty)

/-- What the reader says where a timestamp is due and missing. -/
def Complaint (lines : List Line) (f : Failure) : Prop :=
  f.kind = .unmarshal ∧
    (Due lines [] ∧ f.message = "metrics data ends before the timestamp line" ∨
      ∃ before line rest, lines = before ++ line :: rest ∧ Due lines (line :: rest) ∧
        ¬ IsTimestamp line ∧
        (∀ before' line' rest', lines = before' ++ line' :: rest' → Due lines (line' :: rest') →
          ¬ IsTimestamp line' → before.length ≤ before'.length) ∧
        f.message = "line " ++ toString (before.length + 1) ++ ": invalid metrics timestamp " ++
          Quoted.quote (String.ofList line))

theorem missing_cons {line : Line} {rest : List Line} (h : ¬ IsTimestamp line) :
    Missing (line :: rest) := fun _ _ heq => (List.cons.inj heq).1 ▸ h

theorem Due.readFrom {lines rest : List Line} (h : Due lines rest) (hmissing : Missing rest) :
    ∃ f, Sample.readFrom 0 .group lines = .error f ∧ Complaint lines f := by
  obtain ⟨group, uri, samples, passed, hlength, hread⟩ := h.passes
  rw [hread, Nat.zero_add]
  cases rest with
  | nil => exact ⟨_, rfl, rfl, .inl ⟨h, rfl⟩⟩
  | cons line rest =>
      obtain ⟨before, hlines⟩ := h.suffix
      obtain rfl : passed = before.length := by
        rw [← hlines, List.length_append] at hlength
        omega
      have hline : ¬ IsTimestamp line := hmissing line rest rfl
      have hfails : Sample.readFrom before.length (.timestamp group uri) (line :: rest) =
          .error (.ofCause (.metricsTimestamp (before.length + 1) (String.ofList line))) := by
        rw [Sample.readFrom]
        split
        next t ht => exact absurd ⟨t, Literal.readInt64_eq_ok_iff.1 ht⟩ hline
        next => rfl
      rw [hfails]
      refine ⟨_, rfl, rfl, .inr ⟨before, line, rest, hlines.symm, h, hline, ?_, rfl⟩⟩
      intro before' line' rest' hlines' hdue' hline'
      have hrest : line :: rest = line' :: rest' :=
        h.unique hdue' hmissing (missing_cons hline')
      rw [← hlines, ← hrest] at hlines'
      exact Nat.le_of_eq (congrArg List.length (List.append_cancel_right hlines'))

/-! ## Lines -/

/-- The lines of a text. A line feed ends each of them, but may be missing after the last unless
that is empty. -/
def Splits (text : List Char) (lines : List Line) : Prop :=
  (∀ l ∈ lines, '\n' ∉ l) ∧ (text = lines.flatMap (· ++ ['\n']) ∨
    ∃ front last, lines = front ++ [last] ∧ last ≠ [] ∧
      text = front.flatMap (· ++ ['\n']) ++ last)

theorem splitLines_last {last : List Char} (hlast : '\n' ∉ last) (hsome : last ≠ []) :
    Sample.splitLines last = [last] := by
  induction last with
  | nil => exact absurd rfl hsome
  | cons c last ih =>
      rw [List.mem_cons, not_or] at hlast
      rw [Sample.splitLines, if_neg (Ne.symm hlast.1)]
      cases last with
      | nil => rfl
      | cons d last => rw [ih hlast.2 (List.cons_ne_nil d last)]

theorem splits_splitLines (text : List Char) : Splits text (Sample.splitLines text) := by
  induction text with
  | nil => exact ⟨List.forall_mem_nil _, .inl rfl⟩
  | cons c text ih =>
      obtain ⟨hfeeds, htext⟩ := ih
      rw [Sample.splitLines]
      split
      next hc =>
        refine ⟨List.forall_mem_cons.2 ⟨List.not_mem_nil, hfeeds⟩, ?_⟩
        rcases htext with htext | ⟨front, last, hlines, hlast, htext⟩
        · exact .inl (by rw [hc, List.flatMap_cons, ← htext]; rfl)
        · exact .inr ⟨[] :: front, last, by rw [hlines]; rfl, hlast, by rw [hc, htext]; rfl⟩
      next hc =>
        have hcons : ∀ {l : Line}, '\n' ∉ l → '\n' ∉ c :: l := fun hl h =>
          (List.mem_cons.1 h).elim (fun h => hc h.symm) hl
        split
        next hnone =>
          rw [hnone] at htext
          refine ⟨List.forall_mem_cons.2 ⟨hcons List.not_mem_nil, List.forall_mem_nil _⟩, ?_⟩
          rcases htext with rfl | ⟨front, last, hlines, -⟩
          · exact .inr ⟨[], [c], rfl, List.cons_ne_nil c [], rfl⟩
          · exact absurd hlines.symm (by simp)
        next line lines hlines =>
          rw [hlines] at hfeeds htext
          obtain ⟨hline, hfeeds⟩ := List.forall_mem_cons.1 hfeeds
          refine ⟨List.forall_mem_cons.2 ⟨hcons hline, hfeeds⟩, ?_⟩
          rcases htext with rfl | ⟨_ | ⟨first, front⟩, last, hfront, hlast, rfl⟩
          · exact .inl rfl
          · obtain ⟨rfl, rfl⟩ := List.cons.inj hfront
            exact .inr ⟨[], c :: line, rfl, List.cons_ne_nil c line, rfl⟩
          · obtain ⟨rfl, rfl⟩ := List.cons.inj hfront
            exact .inr ⟨(c :: line) :: front, last, rfl, hlast, rfl⟩

/-- A text has lines in one way only. -/
theorem splits_iff {text : List Char} {lines : List Line} :
    Splits text lines ↔ lines = Sample.splitLines text := by
  refine ⟨?_, fun h => h ▸ splits_splitLines text⟩
  rintro ⟨hfeeds, rfl | ⟨front, last, rfl, hlast, rfl⟩⟩
  · exact (Report.splitLines_text hfeeds).symm
  · have hfront := Report.splitLines_append (fun l hl => hfeeds l (List.mem_append_left _ hl)) last
    rw [hfront, splitLines_last (hfeeds last (List.mem_append_right _ List.mem_cons_self)) hlast]

/-! ## What is read -/

/-- The reader accepts the texts of the grammar and no others. A text is split into lines, which
lose the carriage returns at their ends. If they have a derivation, it is the only one, and what is
read is one sample for each of its objects. If they have none, then they end where a timestamp is
due, or there is one line, the first that is no timestamp where one is due, and the failure names
it. -/
theorem readText_derives (text : List Char) :
    (∃ raw, (∀ other, Splits text other ↔ other = raw) ∧
      Sample.lines text = raw.map (Blank.dropEndWhile (· == '\r'))) ∧
    ((∃ samples, Sample.readText text = .ok samples) ↔
      ∃ t : Text, t.Derives (Sample.lines text)) ∧
    (∀ t : Text, t.Derives (Sample.lines text) →
      (∀ t' : Text, t'.Derives (Sample.lines text) → t' = t) ∧
      Sample.readText text = .ok t.samples) ∧
    ∀ f, Sample.readText text = .error f → Complaint (Sample.lines text) f := by
  have hderived : ∀ {t : Text}, t.Derives (Sample.lines text) →
      Sample.readText text = .ok t.samples := fun ht => ht.readFrom
  refine ⟨⟨Sample.splitLines text, fun _ => splits_iff, rfl⟩, ⟨?_, ?_⟩, ?_, ?_⟩
  · rintro ⟨samples, hsamples⟩
    rcases exists_text (Sample.lines text) with ht | ⟨rest, hdue, hmissing⟩
    · exact ht
    · obtain ⟨f, hf, -⟩ := hdue.readFrom hmissing
      exact nomatch hsamples.symm.trans hf
  · exact fun ⟨t, ht⟩ => ⟨t.samples, hderived ht⟩
  · exact fun t ht => ⟨fun t' ht' => ht'.unique ht, hderived ht⟩
  · intro f hf
    rcases exists_text (Sample.lines text) with ⟨t, ht⟩ | ⟨rest, hdue, hmissing⟩
    · exact nomatch hf.symm.trans (hderived ht)
    · obtain ⟨f', hf', hcomplaint⟩ := hdue.readFrom hmissing
      obtain rfl := Except.error.inj (hf.symm.trans hf')
      exact hcomplaint

/-- An empty line comes first, a carriage return ends the timestamp, and the empty lines after the
object and the group are missing. -/
theorem readText_derives_short :
    let text := "\n\"g\"\n\"/o\"\n 5\r\n1,\"a\"".toList
    ∃ t : Text, t.Derives (Sample.lines text) ∧
      (∀ t' : Text, t'.Derives (Sample.lines text) → t' = t) ∧
      Sample.readText text = .ok [⟨"g", "/o", 5, [[.integer 1, .string "a"]]⟩] := by
  intro text
  let object : Object :=
    ⟨"\"/o\"".toList, " 5".toList, 5, ["1,\"a\"".toList], .endOfText⟩
  let t : Text := ⟨1, [⟨"\"g\"".toList, [object], .endOfText⟩]⟩
  have hobject : object.Derives ["\"/o\"".toList, " 5".toList, "1,\"a\"".toList] [] :=
    ⟨by decide, Literal.readInt64_eq_ok_iff.1 rfl, by decide, [], rfl, .endOfText⟩
  have hlines : Sample.lines text =
      [] :: ["\"g\"".toList, "\"/o\"".toList, " 5".toList, "1,\"a\"".toList] := by decide +kernel
  have ht : t.Derives (Sample.lines text) :=
    ⟨_, hlines, .cons ⟨by decide, _, [], rfl, .cons hobject .nil, .endOfText⟩ .nil⟩
  obtain ⟨hunique, hread⟩ := (readText_derives text).2.2.1 t ht
  exact ⟨t, ht, hunique, hread.trans (congrArg Except.ok (by decide))⟩

end Grammar

end HmcClient
