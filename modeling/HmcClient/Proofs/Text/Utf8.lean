import HmcClient.Text.Utf8

/-!
# Text that is encoded is decoded

The bytes of a character are scanned one by one. The first says how many more there are and in which
range the next one lies, and every byte adds its bits to what has been read. So it is enough to know
that the range is met, which is what the lengths of the encoding are made for, and that the bits put
together again are those of the character.
-/

namespace HmcClient.Utf8

theorem toNat_toUInt8 {n : Nat} (h : n < 256) : n.toUInt8.toNat = n := by
  rw [Nat.toUInt8, UInt8.toNat_ofNat', Nat.mod_eq_of_lt h]

/-- What a character's number can be. -/
theorem toNat_ranges (c : Char) : c.toNat < 0xD800 ∨ 0xDFFF < c.toNat ∧ c.toNat < 0x110000 :=
  c.valid

theorem scan_fresh {b : UInt8} {p : Pending} (h : start b = some (.inr p)) (rest : List UInt8) :
    scan .fresh (b :: rest) = scan p rest := by
  rw [scan, step, restart, h]
  rfl

section

variable {tails low high code : Nat} {b : UInt8} (hlow : low ≤ b.toNat) (hhigh : b.toNat ≤ high)

include hlow hhigh

theorem scan_last (rest : List UInt8) : scan (.owing 0 low high code) (b :: rest) =
    some (Char.ofNat (code * 0x40 + b.toNat % 0x40)) :: scan .fresh rest := by
  rw [scan, step, if_pos ⟨hlow, hhigh⟩]
  rfl

theorem scan_tail (rest : List UInt8) : scan (.owing (tails + 1) low high code) (b :: rest) =
    scan (.owing tails 0x80 0xBF (code * 0x40 + b.toNat % 0x40)) rest := by
  rw [scan, step, if_pos ⟨hlow, hhigh⟩]
  rfl

end

/-- The first of two bytes. -/
theorem start_two {n : Nat} (hlow : 0x80 ≤ n) (hhigh : n < 0x800) :
    start (0xC0 + n / 0x40).toUInt8 = some (.inr (.owing 0 0x80 0xBF (n / 0x40))) := by
  rw [start, toNat_toUInt8 (by omega)]
  rw [if_neg (by omega), if_pos (by omega), Nat.add_sub_cancel_left]

/-- The first of three bytes, and the range of the second. -/
theorem start_three {n : Nat} (hlow : 0x800 ≤ n) (hhigh : n < 0x10000)
    (hvalid : n < 0xD800 ∨ 0xDFFF < n) : ∃ low high,
    start (0xE0 + n / 0x1000).toUInt8 = some (.inr (.owing 1 low high (n / 0x1000))) ∧
      low ≤ 0x80 + n / 0x40 % 0x40 ∧ 0x80 + n / 0x40 % 0x40 ≤ high := by
  rw [start, toNat_toUInt8 (by omega)]
  rw [if_neg (by omega), if_neg (by omega)]
  split
  next hfirst => exact ⟨0xA0, 0xBF, by rw [show n / 0x1000 = 0 by omega], by omega, by omega⟩
  split
  next hlast => exact ⟨0x80, 0x9F, by rw [show n / 0x1000 = 0xD by omega], by omega, by omega⟩
  rw [if_pos (by omega), Nat.add_sub_cancel_left]
  exact ⟨0x80, 0xBF, rfl, by omega, by omega⟩

/-- The first of four bytes, and the range of the second. -/
theorem start_four {n : Nat} (hlow : 0x10000 ≤ n) (hhigh : n < 0x110000) : ∃ low high,
    start (0xF0 + n / 0x40000).toUInt8 = some (.inr (.owing 2 low high (n / 0x40000))) ∧
      low ≤ 0x80 + n / 0x1000 % 0x40 ∧ 0x80 + n / 0x1000 % 0x40 ≤ high := by
  rw [start, toNat_toUInt8 (by omega)]
  rw [if_neg (by omega), if_neg (by omega), if_neg (by omega), if_neg (by omega),
    if_neg (by omega)]
  split
  next hfirst => exact ⟨0x90, 0xBF, by rw [show n / 0x40000 = 0 by omega], by omega, by omega⟩
  split
  next =>
    rw [Nat.add_sub_cancel_left]
    exact ⟨0x80, 0xBF, rfl, by omega, by omega⟩
  rw [if_pos (by omega)]
  exact ⟨0x80, 0x8F, by rw [show n / 0x40000 = 4 by omega], by omega, by omega⟩

/-- A character is scanned from its bytes. -/
theorem scan_encodeChar (c : Char) (rest : List UInt8) :
    scan .fresh (encodeChar c ++ rest) = some c :: scan .fresh rest := by
  have hvalid := toNat_ranges c
  have hc := Char.ofNat_toNat c
  rw [encodeChar]
  generalize c.toNat = n at hvalid hc
  split
  next h =>
    rw [List.singleton_append, scan, step, restart, start, toNat_toUInt8 (by omega)]
    dsimp only
    rw [if_pos h, hc]
    rfl
  split
  next hlow hhigh =>
    have htail : (0x80 + n % 0x40).toUInt8.toNat = 0x80 + n % 0x40 := toNat_toUInt8 (by omega)
    rw [List.cons_append, List.singleton_append, scan_fresh (start_two (by omega) hhigh),
      scan_last (by omega) (by omega), htail,
      show n / 0x40 * 0x40 + (0x80 + n % 0x40) % 0x40 = n by omega, hc]
  split
  next hlow hhigh =>
    obtain ⟨low, high, hstart, hle, hge⟩ := start_three (by omega) hhigh (by omega)
    have hsecond : (0x80 + n / 0x40 % 0x40).toUInt8.toNat = 0x80 + n / 0x40 % 0x40 :=
      toNat_toUInt8 (by omega)
    have htail : (0x80 + n % 0x40).toUInt8.toNat = 0x80 + n % 0x40 := toNat_toUInt8 (by omega)
    rw [List.cons_append, List.cons_append, List.singleton_append, scan_fresh hstart,
      scan_tail (by omega) (by omega), scan_last (by omega) (by omega), hsecond, htail,
      show (n / 0x1000 * 0x40 + (0x80 + n / 0x40 % 0x40) % 0x40) * 0x40 +
        (0x80 + n % 0x40) % 0x40 = n by omega, hc]
  next hlow =>
    obtain ⟨low, high, hstart, hle, hge⟩ := start_four (show 0x10000 ≤ n by omega) (by omega)
    have hsecond : (0x80 + n / 0x1000 % 0x40).toUInt8.toNat = 0x80 + n / 0x1000 % 0x40 :=
      toNat_toUInt8 (by omega)
    have hthird : (0x80 + n / 0x40 % 0x40).toUInt8.toNat = 0x80 + n / 0x40 % 0x40 :=
      toNat_toUInt8 (by omega)
    have htail : (0x80 + n % 0x40).toUInt8.toNat = 0x80 + n % 0x40 := toNat_toUInt8 (by omega)
    rw [List.cons_append, List.cons_append, List.cons_append, List.singleton_append,
      scan_fresh hstart, scan_tail (by omega) (by omega), scan_tail (by omega) (by omega),
      scan_last (by omega) (by omega), hsecond, hthird, htail,
      show ((n / 0x40000 * 0x40 + (0x80 + n / 0x1000 % 0x40) % 0x40) * 0x40 +
        (0x80 + n / 0x40 % 0x40) % 0x40) * 0x40 + (0x80 + n % 0x40) % 0x40 = n by omega, hc]

theorem scan_encodeChars (cs : List Char) : scan .fresh (encodeChars cs) = cs.map some := by
  induction cs with
  | nil => rfl
  | cons c cs ih =>
      show scan .fresh (encodeChar c ++ encodeChars cs) = _
      rw [scan_encodeChar, ih]
      rfl

/-- What is encoded is decoded. -/
theorem decodeChars?_encodeChars (cs : List Char) : decodeChars? (encodeChars cs) = some cs := by
  rw [decodeChars?, scan_encodeChars]
  induction cs with
  | nil => rfl
  | cons c cs ih => rw [List.map_cons, List.mapM_cons, ih]; rfl

/-- Replacing what is ill-formed changes nothing that was encoded. -/
theorem decodeLossy_encodeChars (cs : List Char) :
    decodeLossy (encodeChars cs) = String.ofList cs := by
  rw [decodeLossy, decodeCharsLossy, scan_encodeChars, List.map_map]
  exact congrArg String.ofList (List.map_id cs)

theorem encodeChars_append (cs ds : List Char) :
    encodeChars (cs ++ ds) = encodeChars cs ++ encodeChars ds := List.flatMap_append

theorem encodeChars_cons (c : Char) (cs : List Char) :
    encodeChars (c :: cs) = encodeChar c ++ encodeChars cs := rfl

/-- A character of ASCII is its own byte. -/
theorem encodeChar_ascii {c : Char} (h : c.toNat < 0x80) : encodeChar c = [c.toNat.toUInt8] :=
  if_pos h

theorem encodeChar_ne_nil (c : Char) : encodeChar c ≠ [] := by
  rw [encodeChar]
  split
  · exact List.cons_ne_nil _ _
  split
  · exact List.cons_ne_nil _ _
  split
  · exact List.cons_ne_nil _ _
  · exact List.cons_ne_nil _ _

/-- The bytes of a character beyond ASCII are beyond ASCII, and any other character is its only
byte. -/
theorem mem_encodeChar {c : Char} {b : UInt8} (h : b ∈ encodeChar c) :
    c.toNat < 0x80 ∧ b.toNat = c.toNat ∨ 0x80 ≤ b.toNat := by
  have hvalid := toNat_ranges c
  rw [encodeChar] at h
  split at h
  next hc =>
    obtain rfl := List.mem_singleton.1 h
    exact .inl ⟨hc, toNat_toUInt8 (by omega)⟩
  · right
    split at h
    · simp only [List.mem_cons, List.not_mem_nil, or_false] at h
      rcases h with rfl | rfl
      all_goals rw [toNat_toUInt8 (by omega)]; omega
    split at h
    · simp only [List.mem_cons, List.not_mem_nil, or_false] at h
      rcases h with rfl | rfl | rfl
      all_goals rw [toNat_toUInt8 (by omega)]; omega
    · simp only [List.mem_cons, List.not_mem_nil, or_false] at h
      rcases h with rfl | rfl | rfl | rfl
      all_goals rw [toNat_toUInt8 (by omega)]; omega

end HmcClient.Utf8
