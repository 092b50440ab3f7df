import HmcClient.Proofs.Url.Path
import HmcClient.Url.Query

/-!
# Form encoding

What is written for a name or a value is read as that name or value. The reader turns plus signs
into blanks before it takes escapes apart, and the encoding writes a plus sign only for a blank. An
escape is three bytes of ASCII, so the bytes of a text are put together again one character at a
time (`Form.decode_encode`).

The characters that are written are few: letters, digits, `*-._`, the plus sign and those of
escapes. None of them is an ampersand or an equals sign, so the signs that join names, values and
pairs are found again where they were put (`Form.pairsOf_encodePairs`).
-/

namespace HmcClient

/-! ## Escapes -/

namespace Percent

theorem decode_cons {b : UInt8} (h : b ≠ 0x25) (rest : List UInt8) :
    decode (b :: rest) = b :: decode rest := by
  rw [decode]
  rintro a c rest' rfl
  exact absurd rfl h

/-- The bytes of an escape. -/
theorem encodeChars_escape (b : UInt8) : Utf8.encodeChars (escape b) =
    [0x25, (Hex.upper (b.toNat / 16)).toNat.toUInt8, (Hex.upper (b.toNat % 16)).toNat.toUInt8] := by
  have hupper : ∀ n < 16, (Hex.upper n).toNat < 0x80 := by decide
  have hb := b.toNat_lt
  rw [escape, Utf8.encodeChars_cons, Utf8.encodeChars_cons, Utf8.encodeChars_cons,
    Utf8.encodeChar_ascii (hupper _ (by omega)), Utf8.encodeChar_ascii (hupper _ (by omega))]
  rfl

/-- An escape stands for its byte. -/
theorem decode_escape (b : UInt8) (rest : List UInt8) :
    decode (Utf8.encodeChars (escape b) ++ rest) = b :: decode rest := by
  have hupper : ∀ n < 16, Hex.byteValue? (Hex.upper n).toNat.toUInt8 = some n := by decide
  have hb := b.toNat_lt
  have hbyte : (b.toNat / 16 * 16 + b.toNat % 16).toUInt8 = b := by
    rw [Nat.div_add_mod']
    exact UInt8.toNat_inj.1 (Utf8.toNat_toUInt8 hb)
  rw [encodeChars_escape, List.cons_append, List.cons_append, List.cons_append, List.nil_append,
    decode, hupper _ (by omega), hupper _ (by omega)]
  exact congrArg (· :: decode rest) hbyte

theorem decode_escapes (bytes rest : List UInt8) :
    decode (Utf8.encodeChars (bytes.flatMap escape) ++ rest) = bytes ++ decode rest := by
  induction bytes with
  | nil => rfl
  | cons b bytes ih =>
      rw [List.flatMap_cons, Utf8.encodeChars_append, List.append_assoc, decode_escape, ih]
      rfl

end Percent

/-! ## Names and values -/

namespace Form

open Percent

/-- A plus sign as a blank. -/
def blank (c : Char) : Char := if c = '+' then ' ' else c

theorem toNat_of_isPlain {c : Char} (h : isPlain c = true) : c.toNat < 0x80 := by
  have hbelow (high : Char) (hhigh : high.toNat < 0x80) (h : c.val ≤ high.val) : c.toNat < 0x80 :=
    Nat.lt_of_le_of_lt (UInt32.le_iff_toNat_le.1 h) hhigh
  rcases Bool.or_eq_true_iff.1 h with h | h
  · rcases Bool.or_eq_true_iff.1 h with h | hdigit
    · rcases Bool.or_eq_true_iff.1 h with hupper | hlower
      · exact hbelow 'Z' (by decide) (of_decide_eq_true hupper).2
      · exact hbelow 'z' (by decide) (of_decide_eq_true (Bool.and_eq_true_iff.1 hlower).2)
    · exact hbelow '9' (by decide) (of_decide_eq_true (Bool.and_eq_true_iff.1 hdigit).2)
  · simp only [List.contains_cons, List.contains_nil, Bool.or_eq_true, beq_iff_eq,
      Bool.or_false] at h
    rcases h with rfl | rfl | rfl | rfl
    all_goals decide

theorem isPlain_of_isEscapeChar {c : Char} (h : isEscapeChar c = true) :
    c = '%' ∨ isPlain c = true :=
  of_isEscapeChar (P := fun c => c = '%' ∨ isPlain c = true) (.inl rfl)
    (by decide) h

/-- What can stand in a name or value that is written. -/
theorem mem_encodeChar {c d : Char} (h : d ∈ encodeChar c) :
    d = '+' ∨ d = '%' ∨ isPlain d = true := by
  rw [encodeChar] at h
  split at h
  · exact .inl (List.mem_singleton.1 h)
  split at h
  next hplain => exact .inr (.inr (List.mem_singleton.1 h ▸ hplain))
  · obtain ⟨b, -, h⟩ := List.mem_flatMap.1 h
    exact .inr (isPlain_of_isEscapeChar (mem_escape h))

theorem mem_encode {s : String} {d : Char} (h : d ∈ encode s) :
    d = '+' ∨ d = '%' ∨ isPlain d = true := by
  obtain ⟨c, -, h⟩ := List.mem_flatMap.1 h
  exact mem_encodeChar h

/-- An escape has no plus sign. -/
theorem map_blank_escapes (bytes : List UInt8) :
    (bytes.flatMap escape).map blank = bytes.flatMap escape := by
  refine (List.map_congr_left fun c hc => ?_).trans (List.map_id _)
  obtain ⟨b, -, hc⟩ := List.mem_flatMap.1 hc
  rcases isPlain_of_isEscapeChar (mem_escape hc) with rfl | hplain
  · rfl
  · exact if_neg (by rintro rfl; exact absurd hplain (by decide))

/-- What is written for a character stands for its bytes. -/
theorem decode_encodeChar (c : Char) (rest : List UInt8) :
    Percent.decode (Utf8.encodeChars ((encodeChar c).map blank) ++ rest) =
      Utf8.encodeChar c ++ Percent.decode rest := by
  rw [encodeChar]
  split
  next hc =>
    subst hc
    exact decode_cons (by decide) rest
  split
  next hplain =>
    have hascii := Utf8.encodeChar_ascii (toNat_of_isPlain hplain)
    have hblank : blank c = c := if_neg (by rintro rfl; exact absurd hplain (by decide))
    have hbyte : c.toNat.toUInt8 ≠ 0x25 := by
      intro hpercent
      have hnat := congrArg UInt8.toNat hpercent
      rw [Utf8.toNat_toUInt8 (by have := toNat_of_isPlain hplain; omega)] at hnat
      rw [Char.toNat_inj.1 (show c.toNat = '%'.toNat from hnat)] at hplain
      exact absurd hplain (by decide)
    rw [List.map_singleton, hblank, Utf8.encodeChars_cons, hascii]
    exact decode_cons hbyte rest
  · rw [map_blank_escapes, decode_escapes]

theorem decode_encodeChars (cs : List Char) :
    Percent.decode (Utf8.encodeChars ((cs.flatMap encodeChar).map blank)) =
      Utf8.encodeChars cs := by
  induction cs with
  | nil => rfl
  | cons c cs ih =>
      rw [List.flatMap_cons, List.map_append, Utf8.encodeChars_append, decode_encodeChar, ih]
      rfl

/-- A name or value is read as it was before it was written. -/
theorem decode_encode (s : String) : decode (encode s) = s := by
  show Utf8.decodeLossy (Percent.decode (Utf8.encodeChars
    ((s.toList.flatMap encodeChar).map blank))) = s
  rw [decode_encodeChars, Utf8.decodeLossy_encodeChars, String.ofList_toList]

/-! ## Pairs -/

theorem encode_ne {s : String} {d : Char} (h : d ∈ encode s) : d ≠ '&' ∧ d ≠ '=' := by
  constructor
  all_goals
    rintro rfl
    rcases mem_encode h with h | h | h
    all_goals exact absurd h (by decide)

theorem decodePair_encodePair (pair : String × String) : decodePair (encodePair pair) = pair := by
  have hname : ∀ c ∈ encode pair.1, (c != '=') = true := fun c hc => bne_iff_ne.2 (encode_ne hc).2
  rw [decodePair, encodePair, List.takeWhile_append_of_pos hname,
    List.dropWhile_append_of_pos hname]
  show (decode (encode pair.1 ++ []), decode (encode pair.2)) = pair
  rw [List.append_nil, decode_encode, decode_encode]

theorem encodePair_ne_amp {pair : String × String} {c : Char} (h : c ∈ encodePair pair) :
    c ≠ '&' := by
  rcases List.mem_append.1 h with h | h
  · exact (encode_ne h).1
  rcases List.mem_cons.1 h with rfl | h
  · decide
  · exact (encode_ne h).1

theorem encodePair_ne_nil (pair : String × String) : encodePair pair ≠ [] := by
  rw [encodePair]
  exact fun h => List.cons_ne_nil _ _ (List.append_eq_nil_iff.1 h).2

/-- The pairs between the ampersands of a text. -/
def pairsOf (cs : List Char) : List (String × String) :=
  ((Host.splitOn (· == '&') cs).filter (!·.isEmpty)).map decodePair

theorem pairsOf_append (cs ds : List Char) :
    pairsOf (cs ++ '&' :: ds) = pairsOf cs ++ pairsOf ds := by
  rw [pairsOf, Host.splitOn_append cs ds (by rfl), List.filter_append, List.map_append]
  rfl

theorem pairsOf_encodePair (pair : String × String) : pairsOf (encodePair pair) = [pair] := by
  have hsplit : Host.splitOn (· == '&') (encodePair pair) = [encodePair pair] :=
    Host.splitOn_of_none fun c hc => beq_false_of_ne (encodePair_ne_amp hc)
  rw [pairsOf, hsplit, List.filter_cons_of_pos (by simpa using encodePair_ne_nil pair)]
  exact congrArg (· :: []) (decodePair_encodePair pair)

/-- Pairs are read as they were before they were written. -/
theorem pairsOf_encodePairs (pairs : List (String × String)) :
    pairsOf (encodePairs pairs) = pairs := by
  fun_induction encodePairs pairs with
  | case1 => rfl
  | case2 pair => exact pairsOf_encodePair pair
  | case3 pair rest hrest ih => rw [pairsOf_append, pairsOf_encodePair, ih]; rfl

theorem encodePairs_ne_nil {pairs : List (String × String)} (h : pairs ≠ []) :
    encodePairs pairs ≠ [] := by
  intro hnil
  have hpairs := pairsOf_encodePairs pairs
  rw [hnil] at hpairs
  exact h hpairs.symm

/-- What can stand in pairs that are written. -/
theorem mem_encodePairs {pairs : List (String × String)} {c : Char} (h : c ∈ encodePairs pairs) :
    c = '&' ∨ c = '=' ∨ c = '+' ∨ c = '%' ∨ isPlain c = true := by
  have hpair {pair : String × String} (h : c ∈ encodePair pair) :
      c = '&' ∨ c = '=' ∨ c = '+' ∨ c = '%' ∨ isPlain c = true := by
    rcases List.mem_append.1 h with h | h
    · exact .inr (.inr (mem_encode h))
    rcases List.mem_cons.1 h with rfl | h
    · exact .inr (.inl rfl)
    · exact .inr (.inr (mem_encode h))
  fun_induction encodePairs pairs with
  | case1 => cases h
  | case2 pair => exact hpair h
  | case3 pair rest hrest ih =>
      rcases List.mem_append.1 h with h | h
      · exact hpair h
      rcases List.mem_cons.1 h with rfl | h
      · exact .inl rfl
      · exact ih h

end Form

end HmcClient
