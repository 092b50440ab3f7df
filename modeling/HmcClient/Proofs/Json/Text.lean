import HmcClient.Json.Printer
import HmcClient.Json.Reader
import HmcClient.Proofs.Text.Utf8
import Mathlib.Tactic.IntervalCases

/-!
# Documents that are written and read back

A value is written without blanks, and the reader takes each part of the text off its front. So
every lemma here has the same form: the text of a part with anything behind it is read as that part,
and what is behind it is left. A number is the one part that does not say where it ends, so what
follows a value must be the end of the text or of the place the value stands in (`Document.Ends`).

Strings are told a character at a time. Whatever the printer writes for a character, be it a letter
after a backslash, a code unit in hexadecimal digits or the character's own bytes, is read as pieces
that stand for those bytes (`Document.Spells`).

Doubles are left out: their text is the shortest that is nearest to them, and the reader's result
may be off by a unit in the last place.
-/

namespace HmcClient

/-! ## Strings -/

namespace Document

/-- A byte that is neither a control character nor has a meaning in strings stands for itself. -/
theorem readPieces?_plain {b : UInt8} (hcontrol : 0x20 ≤ b.toNat) (hquote : b.toNat ≠ 0x22)
    (hescape : b.toNat ≠ 0x5C) (rest : List UInt8) : readPieces? (b :: rest) =
      (readPieces? rest).map fun read => (.byte b :: read.1, read.2) := by
  have hplain : ¬ (b < 0x20 ∨ b = 0x5C) := by
    rintro (h | rfl)
    · exact absurd (UInt8.lt_iff_toNat_lt.1 h) (Nat.not_lt.2 hcontrol)
    · exact hescape rfl
  rw [readPieces?, if_neg hplain]
  · cases readPieces? rest <;> rfl
  · rintro rfl; exact hquote rfl
  · rintro _ _ _ _ _ rfl; exact absurd rfl hescape
  · rintro _ _ rfl; exact absurd rfl hescape

/-- Bytes that a string has as they are. -/
theorem readPieces?_plains {bytes : List UInt8}
    (h : ∀ b ∈ bytes, 0x20 ≤ b.toNat ∧ b.toNat ≠ 0x22 ∧ b.toNat ≠ 0x5C) (rest : List UInt8) :
    readPieces? (bytes ++ rest) =
      (readPieces? rest).map fun read => (bytes.map .byte ++ read.1, read.2) := by
  induction bytes with
  | nil => exact Option.map_id'.symm
  | cons b bytes ih =>
      obtain ⟨hcontrol, hquote, hescape⟩ := h b (List.mem_cons_self ..)
      rw [List.cons_append, readPieces?_plain hcontrol hquote hescape,
        ih fun b hb => h b (List.mem_cons_of_mem _ hb), Option.map_map]
      rfl

theorem readPieces?_simple {b v : UInt8} (h : simpleEscape? b = some v) (rest : List UInt8) :
    readPieces? (0x5C :: b :: rest) =
      (readPieces? rest).map fun read => (.byte v :: read.1, read.2) := by
  have hu : b ≠ 0x75 := by rintro rfl; cases h
  rw [readPieces?, h]
  · cases readPieces? rest <;> rfl
  · intro _ _ _ _ _ heq _; exact hu heq

theorem readPieces?_unit {a b c d : UInt8} {n : Nat} (h : codeUnit? a b c d = some n)
    (rest : List UInt8) : readPieces? (0x5C :: 0x75 :: a :: b :: c :: d :: rest) =
      (readPieces? rest).map fun read => (.unit n :: read.1, read.2) := by
  rw [readPieces?, h]
  cases readPieces? rest <;> rfl

theorem bytes?_bytes (bytes : List UInt8) (pieces : List Piece) :
    Piece.bytes? (bytes.map .byte ++ pieces) = (Piece.bytes? pieces).map (bytes ++ ·) := by
  induction bytes with
  | nil => exact Option.map_id'.symm
  | cons b bytes ih =>
      rw [List.map_cons, List.cons_append, Piece.bytes?, ih, Option.map_map]
      rfl

theorem bytes?_unit {n : Nat} (h : n < 0xD800) (pieces : List Piece) :
    Piece.bytes? (.unit n :: pieces) =
      (Piece.bytes? pieces).map (Utf8.encodeChar (Char.ofNat n) ++ ·) := by
  rw [Piece.bytes?.eq_def]
  dsimp only
  rw [if_neg (by omega), if_neg (by omega)]

/-- Whether bytes within a string are read as one character, whatever stands behind them. -/
def Spells (written : List UInt8) (c : Char) : Prop := ∃ pieces : List Piece,
  (∀ rest, readPieces? (written ++ rest) =
    (readPieces? rest).map fun read => (pieces ++ read.1, read.2)) ∧
  ∀ others, Piece.bytes? (pieces ++ others) =
    (Piece.bytes? others).map (Utf8.encodeChar c ++ ·)

theorem spells_simple {b : UInt8} {c : Char} {v : UInt8} (h : simpleEscape? b = some v)
    (hc : Utf8.encodeChar c = [v]) : Spells [0x5C, b] c := by
  refine ⟨[.byte v], readPieces?_simple h, fun others => ?_⟩
  rw [hc]
  rfl

/-- The four digits of a control character's escape. -/
theorem codeUnit?_control : ∀ n < 0x20, codeUnit? 0x30 0x30 (Hex.lower (n / 16)).toNat.toUInt8
    (Hex.lower (n % 16)).toNat.toUInt8 = some n := by decide

theorem spells_control {c : Char} (h : c.toNat < 0x20) : Spells (Utf8.encodeChars
    ['\\', 'u', '0', '0', Hex.lower (c.toNat / 16), Hex.lower (c.toNat % 16)]) c := by
  have hascii : ∀ n < 16, (Hex.lower n).toNat < 0x80 := by decide
  have hbytes : Utf8.encodeChars
      ['\\', 'u', '0', '0', Hex.lower (c.toNat / 16), Hex.lower (c.toNat % 16)] =
        [0x5C, 0x75, 0x30, 0x30, (Hex.lower (c.toNat / 16)).toNat.toUInt8,
          (Hex.lower (c.toNat % 16)).toNat.toUInt8] := by
    simp only [Utf8.encodeChars, List.flatMap_cons, List.flatMap_nil,
      Utf8.encodeChar_ascii (hascii (c.toNat / 16) (by omega)),
      Utf8.encodeChar_ascii (hascii (c.toNat % 16) (by omega))]
    rfl
  rw [hbytes]
  refine ⟨[.unit c.toNat], readPieces?_unit (codeUnit?_control _ h), fun others => ?_⟩
  rw [List.singleton_append, bytes?_unit (by omega), Char.ofNat_toNat]

theorem spells_itself {c : Char} (hcontrol : 0x20 ≤ c.toNat) (hquote : c ≠ '"')
    (hescape : c ≠ '\\') : Spells (Utf8.encodeChar c) c := by
  refine ⟨(Utf8.encodeChar c).map .byte, readPieces?_plains fun b hb => ?_, bytes?_bytes _⟩
  rcases Utf8.mem_encodeChar hb with ⟨-, hb⟩ | hb
  · rw [hb]
    exact ⟨hcontrol, fun h => hquote (Char.toNat_inj.1 h), fun h => hescape (Char.toNat_inj.1 h)⟩
  · omega

/-- A character as it is written stands for itself. -/
theorem spells_escapeChar (c : Char) : Spells (Utf8.encodeChars (Json.escapeChar c)) c := by
  have known {n : Nat} (h : c.toNat = n) : c = Char.ofNat n := by rw [← h, Char.ofNat_toNat]
  rw [Json.escapeChar]
  split
  next h => rw [h]; exact spells_simple (b := 0x22) rfl rfl
  split
  next h => rw [h]; exact spells_simple (b := 0x5C) rfl rfl
  split
  next h => rw [known h]; exact spells_simple (b := 0x62) rfl rfl
  split
  next h => rw [known h]; exact spells_simple (b := 0x66) rfl rfl
  split
  next h => rw [h]; exact spells_simple (b := 0x6E) rfl rfl
  split
  next h => rw [h]; exact spells_simple (b := 0x72) rfl rfl
  split
  next h => rw [h]; exact spells_simple (b := 0x74) rfl rfl
  split
  next h => exact spells_control h
  next hquote hescape _ _ _ _ _ hcontrol =>
    rw [Utf8.encodeChars, List.flatMap_cons, List.flatMap_nil, List.append_nil]
    exact spells_itself (Nat.le_of_not_lt hcontrol) hquote hescape

theorem readPieces?_escaped (cs : List Char) (rest : List UInt8) : ∃ pieces : List Piece,
    readPieces? (Utf8.encodeChars (cs.flatMap Json.escapeChar) ++ 0x22 :: rest) =
      some (pieces, rest) ∧ Piece.bytes? pieces = some (Utf8.encodeChars cs) := by
  induction cs with
  | nil => exact ⟨[], rfl, rfl⟩
  | cons c cs ih =>
      obtain ⟨pieces, hread, hbytes⟩ := ih
      obtain ⟨first, hfirst, hvalue⟩ := spells_escapeChar c
      refine ⟨first ++ pieces, ?_, ?_⟩
      · rw [List.flatMap_cons, Utf8.encodeChars_append, List.append_assoc, hfirst, hread]
        rfl
      · rw [hvalue, hbytes]
        rfl

/-- The text of a string is read back. -/
theorem readText?_escaped (s : String) (rest : List UInt8) :
    readText? (Utf8.encodeChars (s.toList.flatMap Json.escapeChar) ++ 0x22 :: rest) =
      some (some s, rest) := by
  obtain ⟨pieces, hread, hbytes⟩ := readPieces?_escaped s.toList rest
  have htext : Piece.text? pieces = some s := by
    rw [Piece.text?, hbytes]
    show Utf8.decode? (Utf8.encodeChars s.toList) = some s
    rw [Utf8.decode?, Utf8.decodeChars?_encodeChars]
    exact congrArg some String.ofList_toList
  rw [readText?, hread, ← htext]
  rfl

end Document

/-! ## Integers -/

namespace Numeral

theorem natOf_append (ds : List Nat) (d : Nat) : natOf (ds ++ [d]) = natOf ds * 10 + d := by
  rw [natOf, List.foldl_append]
  rfl

/-- The digits of a number: they say it, and only zero starts with a zero. -/
theorem toDigits_eq (n : Nat) : ∃ first others, (∀ d ∈ first :: others, d < 10) ∧
    Nat.toDigits 10 n = (first :: others).map Nat.digitChar ∧
    natOf (first :: others) = n ∧ (first = 0 → others = []) := by
  induction n using Nat.strongRecOn with
  | ind n ih =>
      by_cases hn : n < 10
      · refine ⟨n, [], ?_, Nat.toDigits_of_lt_base hn, Nat.zero_add n, fun _ => rfl⟩
        intro d hd
        rwa [List.mem_singleton.1 hd]
      · obtain ⟨first, others, hlt, htext, hvalue, hzero⟩ := ih (n / 10) (by omega)
        refine ⟨first, others ++ [n % 10], ?_, ?_, ?_, fun h => ?_⟩
        · intro d hd
          rw [← List.cons_append] at hd
          rcases List.mem_append.1 hd with hd | hd
          · exact hlt d hd
          · rw [List.mem_singleton.1 hd]
            omega
        · rw [Nat.toDigits_of_base_le (by omega) (by omega), htext, ← List.cons_append,
            List.map_append]
          rfl
        · rw [← List.cons_append, natOf_append, hvalue]
          omega
        · rw [h, hzero h] at hvalue
          exact absurd hvalue (show ¬ 0 = n / 10 by omega)

end Numeral

namespace Document

/-- What may stand after a value: the end of the text, or of the place the value stands in. -/
def Ends (rest : List UInt8) : Prop := ∀ b ∈ rest.head?, b = 0x2C ∨ b = 0x5D ∨ b = 0x7D

theorem digitChar_ascii : ∀ d < 10, (Nat.digitChar d).toNat < 0x80 ∧
    digit? (Nat.digitChar d).toNat.toUInt8 = some d := by decide

/-- The bytes of digits. -/
def digitBytes (ds : List Nat) : List UInt8 := ds.map fun d => (Nat.digitChar d).toNat.toUInt8

theorem encodeChars_digits {ds : List Nat} (h : ∀ d ∈ ds, d < 10) :
    Utf8.encodeChars (ds.map Nat.digitChar) = digitBytes ds := by
  induction ds with
  | nil => rfl
  | cons d ds ih =>
      have hd := (digitChar_ascii d (h d (List.mem_cons_self ..))).1
      rw [List.map_cons, Utf8.encodeChars_cons, Utf8.encodeChar_ascii hd,
        ih fun d hd => h d (List.mem_cons_of_mem _ hd)]
      rfl

theorem readDigits_ends {rest : List UInt8} (h : Ends rest) : readDigits rest = ([], rest) := by
  cases rest with
  | nil => rfl
  | cons b rest => rcases h b rfl with rfl | rfl | rfl <;> rfl

theorem readDigits_digits {ds : List Nat} (h : ∀ d ∈ ds, d < 10) {rest : List UInt8}
    (hrest : Ends rest) : readDigits (digitBytes ds ++ rest) = (ds, rest) := by
  induction ds with
  | nil => exact readDigits_ends hrest
  | cons d ds ih =>
      have hd := (digitChar_ascii d (h d (List.mem_cons_self ..))).2
      show readDigits ((Nat.digitChar d).toNat.toUInt8 :: (digitBytes ds ++ rest)) = _
      rw [readDigits, hd, ih fun d hd => h d (List.mem_cons_of_mem _ hd)]

theorem readFraction?_ends {rest : List UInt8} (h : Ends rest) :
    readFraction? rest = some ([], rest) := by
  cases rest with
  | nil => rfl
  | cons b rest => rcases h b rfl with rfl | rfl | rfl <;> rfl

theorem readExponent?_ends {rest : List UInt8} (h : Ends rest) :
    readExponent? rest = some (none, rest) := by
  cases rest with
  | nil => rfl
  | cons b rest => rcases h b rfl with rfl | rfl | rfl <;> rfl

/-- Digits that do not start with a zero, unless zero is meant, are read as a whole number. -/
theorem readUnsigned?_digits {first : Nat} {others : List Nat}
    (h : ∀ d ∈ first :: others, d < 10) (hzero : first = 0 → others = []) {rest : List UInt8}
    (hrest : Ends rest) (negative : Bool) :
    readUnsigned? negative (digitBytes (first :: others) ++ rest) =
      some (number (Numeral.number? ⟨negative, first :: others, [], none⟩), rest) := by
  have hwhole : readWhole? (digitBytes (first :: others) ++ rest) =
      some (first :: others, rest) := by
    rw [readWhole?, readDigits_digits h hrest]
    split
    next heq => cases heq
    next heq =>
      simp only [Prod.mk.injEq, List.cons.injEq] at heq
      obtain ⟨⟨rfl, rfl⟩, -⟩ := heq
      cases hzero rfl
    next => rfl
  rw [readUnsigned?, hwhole]
  simp only [Option.bind_eq_bind, Option.bind_some, readFraction?_ends hrest,
    readExponent?_ends hrest]
  rfl

/-- An integer of 64 bits, signed or unsigned, is read back. -/
theorem readNumber?_integer {n : Int} (hlow : Width.minInt64 ≤ n) (hhigh : n ≤ Width.maxNat64)
    {rest : List UInt8} (hrest : Ends rest) :
    readNumber? (Utf8.encodeChars (intText n) ++ rest) =
      some (number (some (.integer n)), rest) := by
  obtain ⟨first, others, hlt, htext, hvalue, hzero⟩ := Numeral.toDigits_eq n.natAbs
  rw [intText, htext]
  split
  next hn =>
    rw [Utf8.encodeChars_cons, encodeChars_digits hlt]
    show readUnsigned? true (digitBytes (first :: others) ++ rest) = _
    have hrange : 0 < n.natAbs ∧ n.natAbs ≤ Width.minInt64.natAbs := by
      unfold Width.minInt64 at hlow ⊢
      omega
    rw [readUnsigned?_digits hlt hzero hrest, Numeral.number?, hvalue]
    dsimp only
    rw [if_pos rfl, if_pos hrange, show -(n.natAbs : Int) = n by omega]
  next hn =>
    have hrange : n.natAbs ≤ Decimal.maxSignificand := by
      unfold Decimal.maxSignificand
      omega
    have hunsigned : readNumber? (digitBytes (first :: others) ++ rest) =
        readUnsigned? false (digitBytes (first :: others) ++ rest) := by
      have hsign : ∀ d < 10, (Nat.digitChar d).toNat.toUInt8 ≠ 0x2D := by decide
      show readNumber? ((Nat.digitChar first).toNat.toUInt8 :: _) = _
      rw [readNumber?]
      · rfl
      · exact fun _ h => hsign first (hlt first (List.mem_cons_self ..)) (List.cons.inj h).1
    rw [encodeChars_digits hlt, hunsigned, readUnsigned?_digits hlt hzero hrest, Numeral.number?,
      hvalue]
    dsimp only
    rw [if_neg (by decide), if_pos hrange, show (n.natAbs : Int) = n by omega]

end Document

/-! ## Values -/

namespace Json

mutual

/-- Whether all numbers of a value are integers of 64 bits, signed or unsigned. -/
def Exact : Json → Prop
  | null | bool _ | string _ => True
  | number (.integer n) => Width.minInt64 ≤ n ∧ n ≤ Width.maxNat64
  | number (.float _) => False
  | array items => ItemsExact items
  | object members => MembersExact members

/-- The same of the items of an array. -/
def ItemsExact : List Json → Prop
  | [] => True
  | v :: rest => v.Exact ∧ ItemsExact rest

/-- The same of the members of an object. -/
def MembersExact : List (String × Json) → Prop
  | [] => True
  | (_, v) :: rest => v.Exact ∧ MembersExact rest

end

/-- Whether all members are exact, in whatever order they stand. -/
theorem membersExact_iff {members : List (String × Json)} :
    MembersExact members ↔ ∀ member ∈ members, member.2.Exact := by
  induction members with
  | nil => exact ⟨fun _ _ h => absurd h List.not_mem_nil, fun _ => trivial⟩
  | cons member rest ih => rw [List.forall_mem_cons, ← ih]; rfl

/-- The bytes of a value's text. -/
def bytes (v : Json) : List UInt8 := Utf8.encodeChars v.renderChars

theorem encode_render (v : Json) : Utf8.encode v.render = v.bytes := by
  rw [Utf8.encode, render, String.toList_ofList, bytes]

end Json

namespace Document

theorem encodeChars_quote (s : String) (rest : List UInt8) :
    Utf8.encodeChars (Json.quote s) ++ rest =
      0x22 :: (Utf8.encodeChars (s.toList.flatMap Json.escapeChar) ++ 0x22 :: rest) := by
  rw [Json.quote, List.cons_append, Utf8.encodeChars_cons, Utf8.encodeChars_append,
    List.append_assoc, List.append_assoc]
  rfl

/-- The text of an integer starts with its sign or a digit. -/
theorem intText_starts (n : Int) : ∃ b rest, Utf8.encodeChars (intText n) = b :: rest ∧
    (b = 0x2D ∨ ∃ d < 10, b = (Nat.digitChar d).toNat.toUInt8) := by
  obtain ⟨first, others, hlt, htext, -, -⟩ := Numeral.toDigits_eq n.natAbs
  rw [intText, htext]
  split
  · exact ⟨0x2D, _, rfl, .inl rfl⟩
  · exact ⟨_, _, encodeChars_digits hlt, .inr ⟨first, hlt first (List.mem_cons_self ..), rfl⟩⟩

/-- How the text of a value starts: with no blank, and not like the end of an array. -/
theorem bytes_starts {v : Json} (hv : v.Exact) : ∃ b rest, v.bytes = b :: rest ∧
    isBlank b = false ∧ b ≠ 0x5D := by
  match v, hv with
  | .null, _ => exact ⟨_, _, rfl, rfl, by decide⟩
  | .bool true, _ => exact ⟨_, _, rfl, rfl, by decide⟩
  | .bool false, _ => exact ⟨_, _, rfl, rfl, by decide⟩
  | .string s, _ => exact ⟨0x22, _, rfl, rfl, by decide⟩
  | .array items, _ => exact ⟨0x5B, _, rfl, rfl, by decide⟩
  | .object members, _ => exact ⟨0x7B, _, rfl, rfl, by decide⟩
  | .number (.integer n), _ =>
    have hdigit : ∀ d < 10, isBlank (Nat.digitChar d).toNat.toUInt8 = false ∧
        (Nat.digitChar d).toNat.toUInt8 ≠ 0x5D := by decide
    obtain ⟨b, rest, hbytes, rfl | ⟨d, hd, rfl⟩⟩ := intText_starts n
    · exact ⟨_, rest, hbytes, rfl, by decide⟩
    · exact ⟨_, rest, hbytes, hdigit d hd⟩

theorem skipBlank_cons {b : UInt8} (h : isBlank b = false) (rest : List UInt8) :
    skipBlank (b :: rest) = b :: rest := by
  rw [skipBlank, List.dropWhile_cons_of_neg (by rw [h]; exact Bool.false_ne_true)]

theorem readValue?_integer {n : Int} (hlow : Width.minInt64 ≤ n) (hhigh : n ≤ Width.maxNat64)
    {rest : List UInt8} (hrest : Ends rest) (fuel : Nat) :
    readValue? (fuel + 1) (Utf8.encodeChars (intText n) ++ rest) =
      some (number (some (.integer n)), rest) := by
  rw [← readNumber?_integer hlow hhigh hrest]
  obtain ⟨b, others, hbytes, rfl | ⟨d, hd, rfl⟩⟩ := intText_starts n
  · rw [hbytes, readValue?]
    rfl
  · rw [hbytes, readValue?]
    interval_cases d <;> rfl

theorem readItems?_cons {fuel : Nat} {bytes rest tail : List UInt8} {d : Document}
    {items : List Document} (hitem : readValue? fuel bytes = some (d, 0x2C :: rest))
    (hitems : readItems? fuel rest = some (items, tail)) :
    readItems? (fuel + 1) bytes = some (d :: items, tail) := by
  rw [readItems?, hitem]
  show (readItems? fuel rest).bind _ = _
  rw [hitems]
  rfl

theorem readItems?_last {fuel : Nat} {bytes rest : List UInt8} {d : Document}
    (hitem : readValue? fuel bytes = some (d, 0x5D :: rest)) :
    readItems? (fuel + 1) bytes = some ([d], rest) := by
  rw [readItems?, hitem]
  rfl

theorem readMembers?_cons {fuel : Nat} {name : String} {bytes rest tail : List UInt8}
    {d : Document} {members : List (Option String × Document)}
    (hvalue : readValue? fuel bytes = some (d, 0x2C :: rest))
    (hmembers : readMembers? fuel rest = some (members, tail)) :
    readMembers? (fuel + 1) (Utf8.encodeChars (Json.quote name) ++ 0x3A :: bytes) =
      some ((some name, d) :: members, tail) := by
  rw [encodeChars_quote, readMembers?]
  show ((readText? _).bind _) = _
  rw [readText?_escaped]
  show ((readValue? fuel bytes).bind _) = _
  rw [hvalue]
  show ((readMembers? fuel rest).bind _) = _
  rw [hmembers]
  rfl

theorem readMembers?_last {fuel : Nat} {name : String} {bytes rest : List UInt8}
    {d : Document} (hvalue : readValue? fuel bytes = some (d, 0x7D :: rest)) :
    readMembers? (fuel + 1) (Utf8.encodeChars (Json.quote name) ++ 0x3A :: bytes) =
      some ([(some name, d)], rest) := by
  rw [encodeChars_quote, readMembers?]
  show ((readText? _).bind _) = _
  rw [readText?_escaped]
  show ((readValue? fuel bytes).bind _) = _
  rw [hvalue]
  rfl

theorem renderItems_cons (v w : Json) (rest : List Json) :
    Utf8.encodeChars (Json.renderItems (v :: w :: rest)) =
      v.bytes ++ 0x2C :: Utf8.encodeChars (Json.renderItems (w :: rest)) := by
  rw [Json.renderItems, Utf8.encodeChars_append]
  · rfl
  · nofun

theorem renderItems_last (v : Json) : Utf8.encodeChars (Json.renderItems [v]) = v.bytes := rfl

theorem renderMembers_cons (name : String) (v : Json) (member : String × Json)
    (rest : List (String × Json)) :
    Utf8.encodeChars (Json.renderMembers ((name, v) :: member :: rest)) =
      Utf8.encodeChars (Json.quote name) ++
        0x3A :: (v.bytes ++ 0x2C :: Utf8.encodeChars (Json.renderMembers (member :: rest))) := by
  rw [Json.renderMembers, Utf8.encodeChars_append, Utf8.encodeChars_cons, Utf8.encodeChars_append]
  · rfl
  · nofun

theorem renderMembers_last (name : String) (v : Json) :
    Utf8.encodeChars (Json.renderMembers [(name, v)]) =
      Utf8.encodeChars (Json.quote name) ++ 0x3A :: v.bytes := by
  rw [Json.renderMembers, Utf8.encodeChars_append]
  rfl

theorem bytes_array (v : Json) (others : List Json) : (Json.array (v :: others)).bytes =
    0x5B :: (Utf8.encodeChars (Json.renderItems (v :: others)) ++ [0x5D]) := by
  rw [Json.bytes, Json.renderChars, List.cons_append, Utf8.encodeChars_cons,
    Utf8.encodeChars_append]
  rfl

theorem bytes_object (member : String × Json) (others : List (String × Json)) :
    (Json.object (member :: others)).bytes =
      0x7B :: (Utf8.encodeChars (Json.renderMembers (member :: others)) ++ [0x7D]) := by
  rw [Json.bytes, Json.renderChars, List.cons_append, Utf8.encodeChars_cons,
    Utf8.encodeChars_append]
  rfl

theorem renderMembers_starts (member : String × Json) (others : List (String × Json)) :
    ∃ rest, Utf8.encodeChars (Json.renderMembers (member :: others)) = 0x22 :: rest := by
  cases others with
  | nil => exact ⟨_, rfl⟩
  | cons _ _ => exact ⟨_, rfl⟩

theorem renderItems_starts {v : Json} (hv : v.Exact) (others : List Json) :
    ∃ b rest, Utf8.encodeChars (Json.renderItems (v :: others)) = b :: rest ∧
      isBlank b = false ∧ b ≠ 0x5D := by
  obtain ⟨b, rest, hbytes, hb⟩ := bytes_starts hv
  cases others with
  | nil => exact ⟨b, rest, hbytes, hb⟩
  | cons w others => exact ⟨b, _, by rw [renderItems_cons, hbytes]; rfl, hb⟩

theorem readValue?_array {fuel : Nat} {v : Json} (hv : v.Exact) {others : List Json}
    {rest : List UInt8} {items : List Document}
    (h : readItems? fuel (Utf8.encodeChars (Json.renderItems (v :: others)) ++ 0x5D :: rest) =
      some (items, rest)) :
    readValue? (fuel + 1) ((Json.array (v :: others)).bytes ++ rest) =
      some (array items, rest) := by
  obtain ⟨b, tail, hbytes, hblank, hend⟩ := renderItems_starts hv others
  rw [hbytes] at h
  rw [bytes_array, List.cons_append, List.append_assoc, List.singleton_append, readValue?, hbytes,
    List.cons_append, skipBlank_cons (show isBlank 0x5B = false from rfl)]
  simp only [skipBlank_cons hblank]
  split
  next heq => exact absurd (List.cons.inj heq).1 hend
  next => rw [← List.cons_append, h]; rfl

theorem readValue?_object {fuel : Nat} {member : String × Json} {others : List (String × Json)}
    {rest : List UInt8} {members : List (Option String × Document)}
    (h : readMembers? fuel
      (Utf8.encodeChars (Json.renderMembers (member :: others)) ++ 0x7D :: rest) =
        some (members, rest)) :
    readValue? (fuel + 1) ((Json.object (member :: others)).bytes ++ rest) =
      some (object members, rest) := by
  obtain ⟨tail, hbytes⟩ := renderMembers_starts member others
  rw [hbytes] at h
  rw [bytes_object, List.cons_append, List.append_assoc, List.singleton_append, readValue?, hbytes]
  show (readMembers? fuel (0x22 :: tail ++ 0x7D :: rest)).map _ = _
  rw [h]
  rfl

mutual

/-- A value is read back from its text. -/
theorem readValue?_bytes (v : Json) (hv : v.Exact) {fuel : Nat} {rest : List UInt8}
    (hrest : Ends rest) (hfuel : 2 * v.bytes.length ≤ fuel) :
    readValue? fuel (v.bytes ++ rest) = some (ofValue v, rest) := by
  obtain ⟨b, tail, hstart, -⟩ := bytes_starts hv
  obtain ⟨fuel, rfl⟩ : ∃ n, fuel = n + 1 := by
    rw [hstart, List.length_cons] at hfuel
    exact ⟨fuel - 1, by omega⟩
  match v, hv with
  | .null, _ => rfl
  | .bool true, _ => rfl
  | .bool false, _ => rfl
  | .number (.integer n), ⟨hlow, hhigh⟩ => exact readValue?_integer hlow hhigh hrest fuel
  | .string s, _ =>
    show readValue? _ (Utf8.encodeChars (Json.quote s) ++ rest) = _
    rw [encodeChars_quote, readValue?]
    show (readText? _).map _ = _
    rw [readText?_escaped]
    rfl
  | .array [], _ => rfl
  | .array (v :: others), hv =>
    refine readValue?_array hv.1 (readItems?_bytes v others hv ?_)
    rw [bytes_array, List.length_cons, List.length_append, List.length_singleton] at hfuel
    omega
  | .object [], _ => rfl
  | .object (member :: others), hv =>
    refine readValue?_object (readMembers?_bytes member others hv ?_)
    rw [bytes_object, List.length_cons, List.length_append, List.length_singleton] at hfuel
    omega
termination_by fuel

/-- The items of an array are read back. -/
theorem readItems?_bytes (v : Json) (others : List Json) (hv : Json.ItemsExact (v :: others))
    {fuel : Nat} {rest : List UInt8}
    (hfuel : 2 * (Utf8.encodeChars (Json.renderItems (v :: others))).length < fuel) :
    readItems? fuel (Utf8.encodeChars (Json.renderItems (v :: others)) ++ 0x5D :: rest) =
      some (ofValues (v :: others), rest) := by
  obtain ⟨fuel, rfl⟩ : ∃ n, fuel = n + 1 := ⟨fuel - 1, by omega⟩
  match others, hv with
  | [], hv =>
    rw [renderItems_last] at hfuel ⊢
    exact readItems?_last (readValue?_bytes v hv.1 (by simp [Ends]) (by omega))
  | w :: others, hv =>
    rw [renderItems_cons, List.length_append, List.length_cons] at hfuel
    rw [renderItems_cons, List.append_assoc, List.cons_append]
    exact readItems?_cons (readValue?_bytes v hv.1 (by simp [Ends]) (by omega))
      (readItems?_bytes w others hv.2 (by omega))
termination_by fuel

/-- The members of an object are read back, in the order they are written in. -/
theorem readMembers?_bytes (member : String × Json) (others : List (String × Json))
    (hmembers : Json.MembersExact (member :: others)) {fuel : Nat} {rest : List UInt8}
    (hfuel : 2 * (Utf8.encodeChars (Json.renderMembers (member :: others))).length < fuel) :
    readMembers? fuel
        (Utf8.encodeChars (Json.renderMembers (member :: others)) ++ 0x7D :: rest) =
      some (ofMembers (member :: others), rest) := by
  obtain ⟨fuel, rfl⟩ : ∃ n, fuel = n + 1 := ⟨fuel - 1, by omega⟩
  match member, others, hmembers with
  | (name, v), [], hv =>
    rw [renderMembers_last, List.length_append, List.length_cons] at hfuel
    rw [renderMembers_last, List.append_assoc, List.cons_append]
    exact readMembers?_last (readValue?_bytes v hv.1 (by simp [Ends]) (by omega))
  | (name, v), next :: others, hv =>
    rw [renderMembers_cons, List.length_append, List.length_cons, List.length_append,
      List.length_cons] at hfuel
    rw [renderMembers_cons, List.append_assoc, List.cons_append, List.append_assoc,
      List.cons_append]
    exact readMembers?_cons (readValue?_bytes v hv.1 (by simp [Ends]) (by omega))
      (readMembers?_bytes next others hv.2 (by omega))
termination_by fuel

end

/-- What is written is read back: the text of a value without doubles says that value. -/
theorem read?_bytes {v : Json} (hv : v.Exact) : read? v.bytes = some (ofValue v) := by
  have h : readValue? (2 * v.bytes.length + 2) (v.bytes ++ []) = some (ofValue v, []) :=
    readValue?_bytes v hv nofun (by omega)
  rw [List.append_nil] at h
  rw [read?, h]
  rfl

end Document

end HmcClient
