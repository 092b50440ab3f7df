import HmcClient.Proofs.Metrics.Splitting
import HmcClient.Proofs.Text.Blank

/-!
# Values that are written and read back

A row is written as its values, with commas between them. Reading it back has to undo four things:
the commas, the quotes around strings, the quotes that are doubled inside of them, and the digits of
integers. The commas are the only one that is not local to a value, because a string may contain
commas. What makes it local is parity: a value is written with an even number of quotes, and each of
its commas has an odd number before it. A text that `closes` in this sense is cut off as one field
whatever follows its comma.

Strings are always quoted, so one that looks like an integer or a truth value, or has blanks around
it, is a string again.
-/

namespace HmcClient

/-! ## Integers -/

namespace Literal

/-- How an integer is written. -/
def digits (n : Int) : List Char := (toString n).toList

theorem digit?_of_isDigit {c : Char} (h : c.isDigit = true) :
    digit? c = some (c.toNat - '0'.toNat) := by
  simp only [Char.isDigit, Bool.and_eq_true, decide_eq_true_eq, ge_iff_le, UInt32.le_iff_toNat_le]
    at h
  exact if_pos h

/-- Digits are appended until they are used up, if what they come to is in bounds: what was read so
far is never more than that. -/
theorem appendDigits_eq {bound : Nat} {overflow : IntegerFault} {cs : List Char} {acc : Nat}
    (hdigits : ∀ c ∈ cs, c.isDigit = true) (hbound : Nat.ofDigitChars 10 cs acc ≤ bound) :
    appendDigits bound overflow acc cs = .ok (Nat.ofDigitChars 10 cs acc) := by
  induction cs generalizing acc with
  | nil => rfl
  | cons c cs ih =>
      rw [Nat.ofDigitChars_cons] at hbound ⊢
      have hle : acc * 10 + (c.toNat - '0'.toNat) ≤ bound := by
        rw [Nat.ofDigitChars_eq_ofDigitChars_zero] at hbound
        have : 1 ≤ 10 ^ cs.length := Nat.one_le_pow _ _ (by omega)
        have := Nat.le_mul_of_pos_left (10 * acc + (c.toNat - '0'.toNat)) this
        omega
      rw [appendDigits, digit?_of_isDigit (hdigits c List.mem_cons_self)]
      dsimp only
      rw [if_pos hle, Nat.mul_comm acc 10]
      exact ih (fun d hd => hdigits d (List.mem_cons_of_mem c hd)) hbound

theorem appendDigits_toDigits {bound : Nat} {overflow : IntegerFault} {n : Nat} (h : n ≤ bound) :
    appendDigits bound overflow 0 (Nat.toDigits 10 n) = .ok n := by
  have hn : Nat.ofDigitChars 10 (Nat.toDigits 10 n) 0 = n := Nat.ofDigitChars_ten_toDigits
  rw [appendDigits_eq (fun c hc => Nat.isDigit_of_mem_toDigits (by omega) (by omega) hc)
    (by rw [hn]; exact h), hn]

/-- An integer is written as its digits, after a minus sign if it is negative. -/
theorem digits_cases (n : Int) :
    (0 ≤ n ∧ digits n = Nat.toDigits 10 n.natAbs) ∨
      (n < 0 ∧ digits n = '-' :: Nat.toDigits 10 n.natAbs) := by
  cases n with
  | ofNat m =>
      refine .inl ⟨Int.natCast_nonneg m, ?_⟩
      show m.repr.toList = _
      rw [Nat.toList_repr]
      rfl
  | negSucc m =>
      refine .inr ⟨Int.negSucc_lt_zero m, ?_⟩
      show ("-" ++ (m + 1).repr).toList = _
      rw [String.toList_append, Nat.toList_repr]
      rfl

theorem readInt64_digits {n : Int} (hlow : Width.minInt64 ≤ n) (hhigh : n ≤ Width.maxInt64) :
    readInt64 (digits n) = .ok n := by
  simp only [Width.minInt64, Width.maxInt64] at hlow hhigh
  rcases digits_cases n with ⟨hn, hdigits⟩ | ⟨hn, hdigits⟩
  · have hread : appendDigits Width.maxInt64.natAbs .tooLarge 0 (Nat.toDigits 10 n.natAbs) =
        .ok n.natAbs := appendDigits_toDigits (by simp only [Width.maxInt64]; omega)
    have hsign : ∀ c ∈ Nat.toDigits 10 n.natAbs, c.isDigit = true := fun c hc =>
      Nat.isDigit_of_mem_toDigits (by omega) (by omega) hc
    have hsome : Nat.toDigits 10 n.natAbs ≠ [] := Nat.toDigits_ne_nil
    rw [hdigits]
    generalize Nat.toDigits 10 n.natAbs = cs at hread hsign hsome
    unfold readInt64
    split
    · exact absurd rfl hsome
    · exact absurd (hsign '+' List.mem_cons_self) (by decide)
    · exact absurd (hsign '-' List.mem_cons_self) (by decide)
    · exact absurd (hsign '-' List.mem_cons_self) (by decide)
    · exact absurd (hsign '+' List.mem_cons_self) (by decide)
    · rw [hread]
      show Except.ok (n.natAbs : Int) = _
      rw [Int.natAbs_of_nonneg hn]
  · have hread : appendDigits Width.minInt64.natAbs .tooSmall 0 (Nat.toDigits 10 n.natAbs) =
        .ok n.natAbs := appendDigits_toDigits (by simp only [Width.minInt64]; omega)
    have hsome : Nat.toDigits 10 n.natAbs ≠ [] := Nat.toDigits_ne_nil
    rw [hdigits]
    generalize Nat.toDigits 10 n.natAbs = cs at hread hsome
    cases cs with
    | nil => exact absurd rfl hsome
    | cons c cs =>
        rw [readInt64, hread]
        · show Except.ok (-(n.natAbs : Int)) = _
          rw [Int.ofNat_natAbs_of_nonpos (by omega), Int.neg_neg]
        · exact hsome

/-- An integer of 64 bits as it may be written: digits, which may follow a sign. -/
structure IsInt64 (cs : List Char) (n : Int) : Prop where
  written : ∃ digits : List Char, digits ≠ [] ∧ (∀ c ∈ digits, c.isDigit = true) ∧
    ((cs = digits ∨ cs = '+' :: digits) ∧ n = Nat.ofDigitChars 10 digits 0 ∨
      cs = '-' :: digits ∧ n = -(Nat.ofDigitChars 10 digits 0 : Int))
  least : Width.minInt64 ≤ n
  greatest : n ≤ Width.maxInt64

theorem isDigit_of_digit? {c : Char} {d : Nat} (h : digit? c = some d) : c.isDigit = true := by
  unfold digit? at h
  split at h
  next hrange =>
    simp only [Char.isDigit, Bool.and_eq_true, decide_eq_true_eq, ge_iff_le,
      UInt32.le_iff_toNat_le]
    exact hrange
  next => cases h

theorem of_appendDigits {bound : Nat} {overflow : IntegerFault} {cs : List Char} {acc n : Nat}
    (hacc : acc ≤ bound) (h : appendDigits bound overflow acc cs = .ok n) :
    (∀ c ∈ cs, c.isDigit = true) ∧ n = Nat.ofDigitChars 10 cs acc ∧ n ≤ bound := by
  induction cs generalizing acc with
  | nil =>
      obtain rfl := Except.ok.inj h
      exact ⟨fun _ hc => (nomatch hc), rfl, hacc⟩
  | cons c cs ih =>
      rw [appendDigits] at h
      split at h
      next => cases h
      next d hd =>
        have hdigit := isDigit_of_digit? hd
        obtain rfl := Option.some.inj ((digit?_of_isDigit hdigit).symm.trans hd)
        split at h
        next hle =>
          obtain ⟨hdigits, hn, hbound⟩ := ih hle h
          refine ⟨List.forall_mem_cons.2 ⟨hdigit, hdigits⟩, ?_, hbound⟩
          rw [hn, Nat.ofDigitChars_cons, Nat.mul_comm]
        next => cases h

/-- A magnitude that is read and then given its sign. -/
theorem signed_eq_ok_iff {magnitude : Except IntegerFault Nat} {sign : Int → Int} {n : Int} :
    (do return ((← magnitude : Nat) : Int)).map sign = .ok n ↔
      ∃ m, magnitude = .ok m ∧ sign m = n := by
  cases magnitude with
  | error fault => exact ⟨fun h => (nomatch h), fun ⟨_, h, _⟩ => (nomatch h)⟩
  | ok m =>
      refine ⟨fun h => ⟨m, rfl, Except.ok.inj h⟩, ?_⟩
      rintro ⟨_, hm, rfl⟩
      obtain rfl := Except.ok.inj hm
      rfl

theorem readInt64_eq_ok_iff {cs : List Char} {n : Int} : readInt64 cs = .ok n ↔ IsInt64 cs n := by
  constructor
  · intro h
    unfold readInt64 at h
    split at h
    next => cases h
    next => cases h
    next => cases h
    next digits hsome =>
      obtain ⟨m, hm, rfl⟩ := signed_eq_ok_iff.1 h
      obtain ⟨hdigits, rfl, hbound⟩ := of_appendDigits (Nat.zero_le _) hm
      refine ⟨⟨digits, hsome, hdigits, .inr ⟨rfl, rfl⟩⟩, ?_, ?_⟩
      all_goals simp only [Width.minInt64, Width.maxInt64] at hbound ⊢; omega
    next digits hsome =>
      obtain ⟨m, hm, rfl⟩ := signed_eq_ok_iff.1 h
      obtain ⟨hdigits, rfl, hbound⟩ := of_appendDigits (Nat.zero_le _) hm
      refine ⟨⟨digits, hsome, hdigits, .inl ⟨.inr rfl, rfl⟩⟩, ?_, ?_⟩
      all_goals simp only [Width.minInt64, Width.maxInt64] at hbound ⊢; omega
    next hsome _ _ _ _ =>
      obtain ⟨m, hm, rfl⟩ := signed_eq_ok_iff.1 h
      obtain ⟨hdigits, rfl, hbound⟩ := of_appendDigits (Nat.zero_le _) hm
      refine ⟨⟨cs, hsome, hdigits, .inl ⟨.inl rfl, rfl⟩⟩, ?_, ?_⟩
      all_goals simp only [Width.minInt64, Width.maxInt64] at hbound ⊢; omega
  · rintro ⟨⟨digits, hsome, hdigits, ⟨hcs, rfl⟩ | ⟨rfl, rfl⟩⟩, hlow, hhigh⟩
    · have hread : appendDigits Width.maxInt64.natAbs .tooLarge 0 digits =
          .ok (Nat.ofDigitChars 10 digits 0) :=
        appendDigits_eq hdigits (by simp only [Width.maxInt64] at hhigh ⊢; omega)
      rcases hcs with rfl | rfl
      · unfold readInt64
        split
        next => exact absurd rfl hsome
        next => exact absurd (hdigits '+' List.mem_cons_self) (by decide)
        next => exact absurd (hdigits '-' List.mem_cons_self) (by decide)
        next => exact absurd (hdigits '-' List.mem_cons_self) (by decide)
        next => exact absurd (hdigits '+' List.mem_cons_self) (by decide)
        next =>
          rw [hread]
          rfl
      · rw [readInt64, hread]
        · rfl
        · exact hsome
    · have hread : appendDigits Width.minInt64.natAbs .tooSmall 0 digits =
          .ok (Nat.ofDigitChars 10 digits 0) :=
        appendDigits_eq hdigits (by simp only [Width.minInt64] at hlow ⊢; omega)
      rw [readInt64, hread]
      · rfl
      · exact hsome

theorem IsInt64.unique {cs : List Char} {n m : Int} (hn : IsInt64 cs n) (hm : IsInt64 cs m) :
    n = m :=
  Except.ok.inj ((readInt64_eq_ok_iff.2 hn).symm.trans (readInt64_eq_ok_iff.2 hm))

/-- The characters of an integer are digits and the minus sign. -/
theorem mem_digits {n : Int} {c : Char} (h : c ∈ digits n) : c.isDigit = true ∨ c = '-' := by
  rcases digits_cases n with ⟨-, hdigits⟩ | ⟨-, hdigits⟩
  · rw [hdigits] at h
    exact .inl (Nat.isDigit_of_mem_toDigits (by omega) (by omega) h)
  · rw [hdigits] at h
    rcases List.mem_cons.1 h with rfl | h
    · exact .inr rfl
    · exact .inl (Nat.isDigit_of_mem_toDigits (by omega) (by omega) h)

theorem digits_ne_nil (n : Int) : digits n ≠ [] := by
  rcases digits_cases n with ⟨-, hdigits⟩ | ⟨-, hdigits⟩ <;> rw [hdigits]
  · exact Nat.toDigits_ne_nil
  · exact List.cons_ne_nil _ _

theorem not_mem_digits {n : Int} {c : Char} (hdigit : c.isDigit = false) (hsign : c ≠ '-') :
    c ∉ digits n := by
  intro h
  rcases mem_digits h with h | h
  · rw [hdigit] at h
    cases h
  · exact hsign h

theorem trim_digits {n : Int} : Blank.trim (digits n) = digits n := by
  refine Blank.trimWhile_of_none fun c hc => ?_
  rcases mem_digits hc with h | rfl
  · simp only [Char.isDigit, Bool.and_eq_true, decide_eq_true_eq, ge_iff_le,
      UInt32.le_iff_toNat_le] at h
    have hrange : 48 ≤ c.toNat ∧ c.toNat ≤ 57 := h
    simp only [Blank.isBlank, Bool.or_eq_false_iff, Bool.and_eq_false_iff, decide_eq_false_iff_not,
      beq_eq_false_iff_ne]
    omega
  · decide

end Literal

/-! ## Fields -/

namespace MetricValue

/-- The text with every quote written twice. -/
def doubled (cs : List Char) : List Char := cs.flatMap fun c => if c = '"' then ['"', '"'] else [c]

/-- How a string is written. -/
def quoted (cs : List Char) : List Char := '"' :: (doubled cs ++ ['"'])

theorem doubled_cons (c : Char) (cs : List Char) :
    doubled (c :: cs) = (if c = '"' then ['"', '"'] else [c]) ++ doubled cs := rfl

theorem undouble_doubled (cs : List Char) : undouble (doubled cs) = cs := by
  induction cs with
  | nil => rfl
  | cons c cs ih =>
      rw [doubled_cons]
      split
      · next hc =>
          show '"' :: undouble (doubled cs) = _
          rw [ih, hc]
      · next hc =>
          rw [List.singleton_append, undouble, ih]
          rintro rest rfl
          exact absurd rfl hc

theorem unquote?_quoted (cs : List Char) : unquote? ('"' :: (cs ++ ['"'])) = some cs := by
  rw [unquote?, if_pos (by simp), List.dropLast_concat]

theorem ofField_quoted (s : String) : ofField (quoted s.toList) = .string s := by
  have htrim : Blank.trim (quoted s.toList) = quoted s.toList :=
    Blank.trimWhile_of_ends (doubled s.toList) (by decide) (by decide)
  rw [ofField, htrim, quoted, unquote?_quoted]
  simp only [undouble_doubled, String.ofList_toList]

theorem ofField_bare {cs : List Char} (htrim : Blank.trim cs = cs) (hquote : '"' ∉ cs) :
    ofField cs = ofBare cs := by
  have hbare : unquote? cs = none := by
    unfold unquote?
    split
    · exact absurd List.mem_cons_self hquote
    · rfl
  rw [ofField, htrim, hbare]

theorem ofField_digits {n : Int} (hlow : Width.minInt64 ≤ n) (hhigh : n ≤ Width.maxInt64) :
    ofField (Literal.digits n) = .integer n := by
  have hword : ∀ word : List Char, 't' ∈ word ∨ 'f' ∈ word → Literal.digits n ≠ word := by
    rintro word (h | h) rfl
    · exact Literal.not_mem_digits (by decide) (by decide) h
    · exact Literal.not_mem_digits (by decide) (by decide) h
  rw [ofField_bare Literal.trim_digits (Literal.not_mem_digits (by decide) (by decide)), ofBare,
    if_neg (hword _ (.inl (by decide))), if_neg (hword _ (.inr (by decide))),
    Literal.readInt64_digits hlow hhigh]

end MetricValue

/-! ## What closes -/

namespace Row

theorem closes_of_plain {cs : List Char} (hcomma : ',' ∉ cs) (hquote : '"' ∉ cs) :
    closes false cs = true := by
  induction cs with
  | nil => rfl
  | cons c cs ih =>
      rw [List.mem_cons, not_or] at hcomma hquote
      rw [closes, if_neg (Ne.symm hquote.1), ih hcomma.2 hquote.2]
      simp [Ne.symm hcomma.1]

theorem closes_doubled (cs : List Char) :
    closes true (MetricValue.doubled cs ++ ['"']) = true := by
  induction cs with
  | nil => rfl
  | cons c cs ih =>
      rw [MetricValue.doubled_cons]
      split
      · exact ih
      · next hc =>
          rw [List.singleton_append, List.cons_append, closes, if_neg hc, ih]
          simp

theorem closes_quoted (cs : List Char) : closes false (MetricValue.quoted cs) = true :=
  closes_doubled cs

end Row

end HmcClient
