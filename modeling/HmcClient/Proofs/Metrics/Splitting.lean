import Mathlib.Algebra.Ring.Parity
import HmcClient.Metrics.Row

/-!
# Rows and their fields

Splitting a row undoes the commas between its fields. It does so for every row, also if quotes are
never closed or stand in the middle of a field, and no character of the row gets lost. That alone
would not say where the row is split: a row that is not split at all and one that is split at every
comma come back from joining as well. What decides is parity. A comma inside of a field has an odd
number of quotes before it in that field, and each field but the last has an even number of them, so
that the comma after it separates. No second list of fields has these properties for the same row.

The splitter carries the parity from one character to the next. It need not carry it from one field
to the next, because a field is left only where the quotes are closed. `Parted` says how a row is
put together from fields, without that walk. Its first field may begin inside of quotes: a step of
the splitter takes one character off, and what remains of the field is such a text. Each step keeps
it (`Parted.cons`), so the splitter parts every row (`parted_splitFrom`). The converse goes along
the fields. One that closes is cut off at its comma, whatever follows, and the last one stays whole.
-/

namespace HmcClient.Row

/-! ## Open quotes -/

/-- Whether quotes are open after a text, where `open'` tells whether they are before it. -/
def openAfter : Bool → List Char → Bool
  | open', [] => open'
  | open', c :: rest => openAfter (if c = '"' then !open' else open') rest

/-- Whether a text is one field: as far as the quotes are open, commas do not count, and in the end
all quotes are closed. -/
def closes : Bool → List Char → Bool
  | quoted, [] => !quoted
  | quoted, c :: rest => (c != ',' || quoted) && closes (if c = '"' then !quoted else quoted) rest

/-- Every comma of a text stands where quotes are open. -/
def Guarded (open' : Bool) (field : List Char) : Prop :=
  ∀ before after, field = before ++ ',' :: after → openAfter open' before = true

section

variable {open' : Bool} {c : Char} {rest field : List Char}

theorem openAfter_eq (cs : List Char) :
    openAfter open' cs = (open' != decide (Odd (cs.count '"'))) := by
  induction cs generalizing open' with
  | nil => simp [openAfter]
  | cons c cs ih =>
      rw [openAfter, ih]
      split
      · next hc =>
          rw [hc, List.count_cons_self]
          simp only [Nat.odd_add_one, decide_not]
          cases open' <;> simp
      · next hc => rw [List.count_cons_of_ne hc]

theorem openAfter_iff_odd {cs : List Char} :
    openAfter false cs = true ↔ Odd (cs.count '"') := by
  rw [openAfter_eq]
  simp

theorem not_openAfter_iff_even {cs : List Char} :
    openAfter false cs = false ↔ Even (cs.count '"') := by
  rw [← Bool.not_eq_true, openAfter_iff_odd, Nat.not_odd_iff_even]

theorem guarded_nil : Guarded open' [] := by
  intro before after h
  exact absurd h.symm (List.append_ne_nil_of_right_ne_nil before (List.cons_ne_nil ',' after))

theorem guarded_cons : Guarded open' (c :: rest) ↔
    (c != ',' || open') = true ∧ Guarded (if c = '"' then !open' else open') rest := by
  constructor
  · intro h
    refine ⟨?_, fun before after hrest => h (c :: before) after (by rw [hrest]; rfl)⟩
    by_cases hc : c = ','
    · have hopen : open' = true := h [] rest (by rw [hc]; rfl)
      rw [hopen, Bool.or_true]
    · rw [bne_iff_ne.2 hc, Bool.true_or]
  · rintro ⟨hc, hrest⟩ before after h
    cases before with
    | nil =>
        obtain rfl : c = ',' := (List.cons.inj h).1
        exact hc
    | cons d before =>
        obtain ⟨rfl, htail⟩ := List.cons.inj h
        exact hrest before after htail

theorem closes_iff : closes open' field = true ↔
    Guarded open' field ∧ openAfter open' field = false := by
  induction field generalizing open' with
  | nil => simp [closes, openAfter, guarded_nil]
  | cons c field ih => rw [closes, Bool.and_eq_true, ih, guarded_cons, openAfter, and_assoc]

end

/-! ## What the splitter does with a field -/

theorem splitFrom_cons {open' : Bool} {c : Char} {rest field : List Char}
    {fields : List (List Char)} (hc : (c != ',' || open') = true)
    (h : splitFrom (if c = '"' then !open' else open') rest = field :: fields) :
    splitFrom open' (c :: rest) = (c :: field) :: fields := by
  have hkeep : ¬ (c = ',' ∧ (!open') = true) := by
    rintro ⟨rfl, hopen⟩
    cases open' <;> simp at hc hopen
  rw [splitFrom, if_neg hkeep, h]

theorem splitFrom_of_guarded {open' : Bool} {field : List Char} (h : Guarded open' field) :
    splitFrom open' field = [field] := by
  induction field generalizing open' with
  | nil => rfl
  | cons c field ih =>
      obtain ⟨hc, hrest⟩ := guarded_cons.1 h
      exact splitFrom_cons hc (ih hrest)

theorem splitFrom_append {open' : Bool} {field : List Char} (h : closes open' field = true)
    (rest : List Char) :
    splitFrom open' (field ++ ',' :: rest) = field :: splitFrom false rest := by
  induction field generalizing open' with
  | nil =>
      obtain rfl : open' = false := by simpa [closes] using h
      rfl
  | cons c field ih =>
      rw [closes, Bool.and_eq_true] at h
      exact splitFrom_cons h.1 (ih h.2)

/-! ## How a row is put together -/

/-- A row and the fields it is put together from. Only the first field starts where `open'` tells
that quotes are open; all others follow a comma that separates. -/
inductive Parted : Bool → List Char → List (List Char) → Prop
  | last {open' field} (h : Guarded open' field) : Parted open' field [field]
  | next {open' field rest fields} (h : closes open' field = true)
      (hrest : Parted false rest fields) : Parted open' (field ++ ',' :: rest) (field :: fields)

section

variable {open' : Bool} {c : Char} {row rest field : List Char} {fields : List (List Char)}

theorem Parted.ne_nil (h : Parted open' row fields) : fields ≠ [] := by
  cases h <;> exact List.cons_ne_nil _ _

theorem Parted.cons (hc : (c != ',' || open') = true)
    (h : Parted (if c = '"' then !open' else open') rest (field :: fields)) :
    Parted open' (c :: rest) ((c :: field) :: fields) := by
  cases h with
  | last h => exact .last (guarded_cons.2 ⟨hc, h⟩)
  | next h hrest =>
      have hclose : closes open' (c :: field) = true := by rw [closes, hc, h, Bool.and_self]
      exact .next hclose hrest

theorem parted_splitFrom (open' : Bool) (row : List Char) :
    Parted open' row (splitFrom open' row) := by
  induction row generalizing open' with
  | nil => exact .last guarded_nil
  | cons c rest ih =>
      by_cases hc : c = ',' ∧ (!open') = true
      · obtain ⟨rfl, hclosed⟩ := hc
        -- The comma separates: the field that ends here has no characters left.
        have hparted : Parted open' ([] ++ ',' :: rest) ([] :: splitFrom false rest) :=
          .next hclosed (ih false)
        rw [splitFrom, if_pos ⟨rfl, hclosed⟩]
        exact hparted
      · have hkeep : (c != ',' || open') = true := by simpa [imp_iff_not_or] using hc
        have hrest := ih (if c = '"' then !open' else open')
        obtain ⟨field, fields, hfields⟩ := List.exists_cons_of_ne_nil hrest.ne_nil
        rw [hfields] at hrest
        rw [splitFrom_cons hkeep hfields]
        exact hrest.cons hkeep

theorem Parted.splitFrom_eq (h : Parted open' row fields) : splitFrom open' row = fields := by
  induction h with
  | last h => exact splitFrom_of_guarded h
  | next h _ ih => rw [splitFrom_append h, ih]

end

/-! ## Joining -/

/-- Fields with commas between them. -/
def join : List (List Char) → List Char
  | [] => []
  | [field] => field
  | field :: fields => field ++ ',' :: join fields

/-- What a row is put together from, said of the fields one by one. -/
theorem parted_iff {row : List Char} {fields : List (List Char)} :
    Parted false row fields ↔ fields ≠ [] ∧ join fields = row ∧
      (∀ field ∈ fields, Guarded false field) ∧
      ∀ field ∈ fields.dropLast, openAfter false field = false := by
  induction fields generalizing row with
  | nil => exact ⟨fun h => absurd rfl h.ne_nil, fun h => absurd rfl h.1⟩
  | cons field fields ih =>
      cases fields with
      | nil =>
          constructor
          · intro h
            cases h with
            | last h => exact ⟨List.cons_ne_nil _ _, rfl, List.forall_mem_singleton.2 h, nofun⟩
            | next h hrest => exact absurd rfl hrest.ne_nil
          · rintro ⟨-, rfl, hguarded, -⟩
            exact .last (List.forall_mem_singleton.1 hguarded)
      | cons next fields =>
          constructor
          · intro h
            cases h with
            | next h hrest =>
                obtain ⟨-, rfl, hguarded, hclosed⟩ := ih.1 hrest
                obtain ⟨hfield, hopen⟩ := closes_iff.1 h
                exact ⟨List.cons_ne_nil _ _, rfl, List.forall_mem_cons.2 ⟨hfield, hguarded⟩,
                  List.forall_mem_cons.2 ⟨hopen, hclosed⟩⟩
          · rintro ⟨-, rfl, hguarded, hclosed⟩
            obtain ⟨hfield, hguarded⟩ := List.forall_mem_cons.1 hguarded
            obtain ⟨hopen, hclosed⟩ := List.forall_mem_cons.1 hclosed
            have hrest : Parted false (join (next :: fields)) (next :: fields) :=
              ih.2 ⟨List.cons_ne_nil _ _, rfl, hguarded, hclosed⟩
            exact .next (closes_iff.2 ⟨hfield, hopen⟩) hrest

theorem split_join {fields : List (List Char)} (hsome : fields ≠ [])
    (h : ∀ field ∈ fields, closes false field = true) : split (join fields) = fields := by
  have hguarded : ∀ field ∈ fields, Guarded false field := fun field hfield =>
    (closes_iff.1 (h field hfield)).1
  have hclosed : ∀ field ∈ fields.dropLast, openAfter false field = false := fun field hfield =>
    (closes_iff.1 (h field (List.dropLast_subset fields hfield))).2
  exact (parted_iff.2 ⟨hsome, rfl, hguarded, hclosed⟩).splitFrom_eq

/-! ## Splitting -/

/-- Splitting is the inverse of joining. The fields of a row are the only ones, at least one of
them, that give the row when they are joined with commas, and in which every comma has an odd number
of quotes before it in its field, and an even number of quotes is in every field but the last. -/
theorem split_eq_iff {row : List Char} {fields : List (List Char)} :
    split row = fields ↔ fields ≠ [] ∧ join fields = row ∧
      (∀ field ∈ fields, ∀ before after, field = before ++ ',' :: after →
        Odd (before.count '"')) ∧
      ∀ field ∈ fields.dropLast, Even (field.count '"') := by
  have hparted : split row = fields ↔ Parted false row fields := by
    constructor
    · rintro rfl
      exact parted_splitFrom false row
    · exact Parted.splitFrom_eq
  rw [hparted, parted_iff]
  simp only [Guarded, openAfter_iff_odd, not_openAfter_iff_even]

example : split "7,,\"a,\"\"b\",c\"d,\"e,f".toList =
    ["7".toList, [], "\"a,\"\"b\"".toList, "c\"d,\"e".toList, "f".toList] := by
  decide

end HmcClient.Row
