import HmcClient.Trust.Pem

/-!
# Certificate files that are written

A certificate file is read here and never written, so this is the writing that belongs to the
reading: base64 with its padding, and a section for each certificate. Whatever certificates are
written, exactly they are read again (`Pem.certificates?_write`), so the reader loses none and takes
nothing else for one.

The layers are those of the reader: the values of six bits, the bytes that they make up, the lines,
and the sections.
-/

namespace HmcClient.Pem

/-! ## Base64 -/

/-- The byte that stands for a value of six bits. -/
def letter (v : Nat) : UInt8 :=
  if v < 26 then (v + 65).toUInt8
  else if v < 52 then (v + 71).toUInt8
  else if v < 62 then (v - 4).toUInt8
  else if v = 62 then 43
  else 47

theorem symbol_letter {v : Nat} (h : v < 64) : symbol (letter v) = .value v := by
  have hall : ∀ v < 64, symbol (letter v) = .value v := by decide
  exact hall v h

/-- A letter is no hyphen and ends no line. -/
theorem letter_plain {v : Nat} (h : v < 64) : letter v ≠ 10 ∧ letter v ≠ 13 ∧ letter v ≠ 45 := by
  have hall : ∀ v < 64, letter v ≠ 10 ∧ letter v ≠ 13 ∧ letter v ≠ 45 := by decide
  exact hall v h

/-- The values of six bits that bytes are made of, the last one filled up with zeros. -/
def values : List UInt8 → List Nat
  | a :: b :: c :: rest =>
    a.toNat / 4 :: (a.toNat % 4 * 16 + b.toNat / 16) :: (b.toNat % 16 * 4 + c.toNat / 64) ::
      c.toNat % 64 :: values rest
  | [a, b] => [a.toNat / 4, a.toNat % 4 * 16 + b.toNat / 16, b.toNat % 16 * 4]
  | [a] => [a.toNat / 4, a.toNat % 4 * 16]
  | [] => []

/-- Bytes in base64. -/
def encode (bytes : List UInt8) : List UInt8 :=
  (values bytes).map letter ++ List.replicate ((4 - (values bytes).length % 4) % 4) 61

theorem values_lt (bytes : List UInt8) : ∀ v ∈ values bytes, v < 64 := by
  fun_induction values bytes with
  | case1 a b c rest ih =>
      have := a.toNat_lt
      have := b.toNat_lt
      have := c.toNat_lt
      simp only [List.mem_cons, forall_eq_or_imp]
      exact ⟨by omega, by omega, by omega, by omega, ih⟩
  | case2 a b =>
      have := a.toNat_lt
      have := b.toNat_lt
      simp only [List.mem_cons, List.not_mem_nil, or_false, forall_eq_or_imp, forall_eq]
      exact ⟨by omega, by omega, by omega⟩
  | case3 a =>
      have := a.toNat_lt
      simp only [List.mem_cons, List.not_mem_nil, or_false, forall_eq_or_imp, forall_eq]
      exact ⟨by omega, by omega⟩
  | case4 => exact fun _ hv => absurd hv List.not_mem_nil

theorem assemble?_values (bytes : List UInt8) : assemble? (values bytes) = some bytes := by
  fun_induction values bytes with
  | case1 a b c rest ih =>
      have := a.toNat_lt
      have := b.toNat_lt
      have := c.toNat_lt
      have ha : (((a.toNat / 4 * 64 + (a.toNat % 4 * 16 + b.toNat / 16)) * 64 +
          (b.toNat % 16 * 4 + c.toNat / 64)) * 64 + c.toNat % 64) / 65536 = a.toNat := by omega
      have hb : (((a.toNat / 4 * 64 + (a.toNat % 4 * 16 + b.toNat / 16)) * 64 +
          (b.toNat % 16 * 4 + c.toNat / 64)) * 64 + c.toNat % 64) / 256 % 256 = b.toNat := by omega
      have hc : (((a.toNat / 4 * 64 + (a.toNat % 4 * 16 + b.toNat / 16)) * 64 +
          (b.toNat % 16 * 4 + c.toNat / 64)) * 64 + c.toNat % 64) % 256 = c.toNat := by omega
      simp only [assemble?, ha, hb, hc, ih, Nat.toUInt8, UInt8.ofNat_toNat]
      rfl
  | case2 a b =>
      have := a.toNat_lt
      have := b.toNat_lt
      have ha : ((a.toNat / 4 * 64 + (a.toNat % 4 * 16 + b.toNat / 16)) * 64 +
          b.toNat % 16 * 4) / 1024 = a.toNat := by omega
      have hb : ((a.toNat / 4 * 64 + (a.toNat % 4 * 16 + b.toNat / 16)) * 64 +
          b.toNat % 16 * 4) / 4 % 256 = b.toNat := by omega
      simp only [assemble?, ha, hb, Nat.toUInt8, UInt8.ofNat_toNat]
  | case3 a =>
      have := a.toNat_lt
      have ha : (a.toNat / 4 * 64 + a.toNat % 4 * 16) / 16 = a.toNat := by omega
      simp only [assemble?, ha, Nat.toUInt8, UInt8.ofNat_toNat]
  | case4 => rfl

theorem gather?_padding (n : Nat) : gather? (List.replicate n 61) = some ([], n) := by
  induction n with
  | zero => rfl
  | succ n ih =>
      have hsymbol : symbol 61 = .padding := rfl
      rw [List.replicate_succ, gather?, hsymbol, ih]

theorem gather?_letters {vs : List Nat} (h : ∀ v ∈ vs, v < 64) (n : Nat) :
    gather? (vs.map letter ++ List.replicate n 61) = some (vs, n) := by
  induction vs with
  | nil => exact gather?_padding n
  | cons v vs ih =>
      obtain ⟨hv, hvs⟩ := List.forall_mem_cons.1 h
      rw [List.map_cons, List.cons_append, gather?, symbol_letter hv, ih hvs]
      rfl

theorem decodeBase64?_encode (bytes : List UInt8) : decodeBase64? (encode bytes) = some bytes := by
  rw [decodeBase64?, encode, gather?_letters (values_lt bytes)]
  show (if _ then _ else _) = _
  rw [if_neg (by omega), assemble?_values]

theorem encode_plain (bytes : List UInt8) : ∀ b ∈ encode bytes, b ≠ 10 ∧ b ≠ 13 ∧ b ≠ 45 := by
  intro b hb
  rcases List.mem_append.1 hb with hb | hb
  · obtain ⟨v, hv, rfl⟩ := List.mem_map.1 hb
    exact letter_plain (values_lt bytes v hv)
  · rw [List.eq_of_mem_replicate hb]
    decide

/-! ## Lines and sections -/

/-- The line that begins a certificate. -/
def opening : List UInt8 := ascii "-----BEGIN CERTIFICATE-----"

/-- The line that ends a certificate. -/
def closing : List UInt8 := ascii "-----END CERTIFICATE-----"

/-- A file with these certificates. -/
def write (certificates : List (List UInt8)) : List UInt8 :=
  certificates.flatMap fun c => opening ++ 10 :: (encode c ++ 10 :: (closing ++ [10]))

theorem lines_line {line : List UInt8} (h : ∀ b ∈ line, b ≠ 10 ∧ b ≠ 13) (rest : List UInt8) :
    lines (line ++ 10 :: rest) = line :: lines rest := by
  induction line with
  | nil => rfl
  | cons b line ih =>
      obtain ⟨⟨hfeed, hreturn⟩, hline⟩ := List.forall_mem_cons.1 h
      rw [List.cons_append, lines, if_neg (by simp [hfeed, hreturn]), ih hline]

theorem opening_plain : ∀ b ∈ opening, b ≠ 10 ∧ b ≠ 13 := by decide +kernel

theorem closing_plain : ∀ b ∈ closing, b ≠ 10 ∧ b ≠ 13 := by decide +kernel

theorem beginLabel?_opening : beginLabel? opening = some (some (ascii "CERTIFICATE")) := by
  decide +kernel

theorem beginLabel?_closing : beginLabel? closing = none := by decide +kernel

/-- Base64 begins like no line that is not base64. -/
theorem not_isPrefixOf_encode (rest bytes : List UInt8) :
    (45 :: rest).isPrefixOf (encode bytes) = false := by
  have hplain := encode_plain bytes
  revert hplain
  cases encode bytes with
  | nil => exact fun _ => rfl
  | cons b more =>
      intro hplain
      have hb : b ≠ 45 := (hplain b List.mem_cons_self).2.2
      rw [List.isPrefixOf_cons_cons, beq_eq_false_iff_ne.2 (Ne.symm hb), Bool.false_and]

theorem beginLabel?_encode (bytes : List UInt8) : beginLabel? (encode bytes) = none :=
  if_neg (by rw [show ascii "-----BEGIN " = 45 :: ascii "----BEGIN " by decide +kernel,
    not_isPrefixOf_encode]; exact Bool.false_ne_true)

theorem readFrom?_certificate (c : List UInt8) (rest : List (List UInt8)) :
    readFrom? none [] (opening :: encode c :: closing :: rest) =
      (readFrom? none [] rest).map (⟨ascii "CERTIFICATE", c⟩ :: ·) := by
  have hend : (ascii "-----END " ++ ascii "CERTIFICATE" ++ ascii "-----").isPrefixOf closing =
      true := by decide +kernel
  have hknown : knownLabels.contains (ascii "CERTIFICATE") = true := by decide +kernel
  have hinside : (ascii "-----END " ++ ascii "CERTIFICATE" ++ ascii "-----").isPrefixOf
      (encode c) = false := by
    rw [show ascii "-----END " = 45 :: ascii "----END " by decide +kernel, List.cons_append,
      List.cons_append, not_isPrefixOf_encode]
  rw [readFrom?, beginLabel?_opening]
  show readFrom? (some (ascii "CERTIFICATE")) [] _ = _
  rw [readFrom?, beginLabel?_encode]
  dsimp only
  rw [if_neg (by rw [hinside]; exact Bool.false_ne_true), readFrom?, beginLabel?_closing]
  dsimp only
  rw [if_pos hend, if_pos hknown, List.nil_append, decodeBase64?_encode]
  cases readFrom? none [] rest with
  | none => rfl
  | some sections => rfl

theorem read?_write (certificates : List (List UInt8)) :
    read? (write certificates) = some (certificates.map fun c => ⟨ascii "CERTIFICATE", c⟩) := by
  induction certificates with
  | nil => rfl
  | cons c certificates ih =>
      have hlines : lines (write (c :: certificates)) =
          opening :: encode c :: closing :: lines (write certificates) := by
        rw [write, List.flatMap_cons, List.append_assoc, List.cons_append, List.append_assoc,
          List.cons_append, List.append_assoc, List.singleton_append, lines_line opening_plain,
          lines_line fun b hb => ⟨(encode_plain c b hb).1, (encode_plain c b hb).2.1⟩,
          lines_line closing_plain]
        rfl
      rw [read?, hlines, readFrom?_certificate]
      rw [read?] at ih
      rw [ih]
      rfl

/-- What is written to a file is what is read from it. -/
theorem certificates?_write (certificates : List (List UInt8)) :
    certificates? (write certificates) = some certificates := by
  rw [certificates?, read?_write, Option.map_some, List.filter_eq_self.2]
  · rw [List.map_map]
    exact congrArg some (List.map_id certificates)
  · intro s hs
    obtain ⟨c, -, rfl⟩ := List.mem_map.1 hs
    exact beq_self_eq_true _

end HmcClient.Pem
