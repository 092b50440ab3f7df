import HmcClient.Proofs.Url.Address
import HmcClient.Proofs.Url.Form
import HmcClient.Url.Parse

/-!
# Hosts that are read again

The text of a host is read as that host, with the rules by which it was read before. A name of the
web has no escapes, and to be put into ASCII once more does not change it (`Idna.again`); any other
name has nothing left to encode. Beside this, no character of a host's text ends an authority, and
no colon in it is taken for the one before a port. So a host is found again in the authority in
which it is written (`Host.Written`).
-/

namespace HmcClient

namespace Url

/-- Whether a character stands inside of an authority: it neither ends it nor the user in it, and is
not dropped around a text. -/
def isInner (c : Char) : Bool := !endsAuthority true c && c != '@' && !isPadding c

/-- Only controls and the blank are dropped around a text. -/
theorem isPadding_of_not_isControl {c : Char} (hcontrol : Percent.isControl c = false)
    (hblank : c ≠ ' ') : isPadding c = false := by
  have hne : c.toNat ≠ 0x20 := fun heq =>
    hblank (Char.toNat_inj.1 (show c.toNat = ' '.toNat from heq))
  simp only [Percent.isControl, Bool.or_eq_false_iff, decide_eq_false_iff_not] at hcontrol
  exact decide_eq_false (by omega)

/-- A text without brackets and colons is all host. -/
theorem splitHost_append {cs : List Char} (h : ∀ c ∈ cs, c ≠ ':' ∧ c ≠ '[') (rest : List Char) :
    splitHost false (cs ++ rest) = (cs ++ (splitHost false rest).1, (splitHost false rest).2) := by
  induction cs with
  | nil => rfl
  | cons c cs ih =>
      obtain ⟨hcolon, hbracket⟩ := h c List.mem_cons_self
      rw [List.cons_append, splitHost, beq_false_of_ne hcolon, beq_false_of_ne hbracket]
      show (c :: (splitHost false (cs ++ rest)).1, (splitHost false (cs ++ rest)).2) = _
      rw [ih fun d hd => h d (List.mem_cons_of_mem c hd)]
      rfl

/-- What stands in brackets is host up to the closing one. -/
theorem splitHost_brackets {cs : List Char} (h : ∀ c ∈ cs, c ≠ ']') (rest : List Char) :
    splitHost true (cs ++ ']' :: rest) =
      (cs ++ ']' :: (splitHost false rest).1, (splitHost false rest).2) := by
  induction cs with
  | nil => rfl
  | cons c cs ih =>
      have hinside : (c == '[' || (true && c != ']')) = true := by
        rw [Bool.true_and, bne_iff_ne.2 (h c List.mem_cons_self), Bool.or_true]
      rw [List.cons_append, splitHost, hinside, Bool.not_true, Bool.and_false]
      show (c :: (splitHost true (cs ++ ']' :: rest)).1,
        (splitHost true (cs ++ ']' :: rest)).2) = _
      rw [ih fun d hd => h d (List.mem_cons_of_mem c hd)]
      rfl

theorem splitHost_colon (rest : List Char) :
    splitHost false (':' :: rest) = ([], ':' :: rest) := rfl

end Url

namespace Percent

theorem decode_of_none {bytes : List UInt8} (h : ∀ b ∈ bytes, b ≠ 0x25) : decode bytes = bytes := by
  induction bytes with
  | nil => rfl
  | cons b bytes ih =>
      rw [decode_cons (h b List.mem_cons_self), ih fun c hc => h c (List.mem_cons_of_mem b hc)]

/-- A text without percent signs has no escapes. -/
theorem decode_encodeChars {cs : List Char} (h : ∀ c ∈ cs, c ≠ '%') :
    decode (Utf8.encodeChars cs) = Utf8.encodeChars cs := by
  refine decode_of_none fun b hb hpercent => ?_
  obtain ⟨c, hc, hb⟩ := List.mem_flatMap.1 hb
  have hnat : b.toNat = 0x25 := congrArg UInt8.toNat hpercent
  rcases Utf8.mem_encodeChar hb with ⟨-, heq⟩ | hbeyond
  · exact h c hc (Char.toNat_inj.1 (show c.toNat = '%'.toNat by rw [← heq, hnat]; rfl))
  · omega

end Percent

namespace Host

open Url

variable {idna : Idna}

/-- Reads a host by the rules of the web or by the others. -/
def ofText (idna : Idna) (web : Bool) (cs : List Char) : Except Fault Host :=
  if web then ofWebText idna cs else ofVerbatimText cs

/-- Whether a host is read again from its text, also in an authority. -/
structure Written (idna : Idna) (web : Bool) (h : Host) : Prop where
  again : ofText idna web h.render = .ok h
  inner : ∀ c ∈ h.render, isInner c = true
  split : splitHost false h.render = (h.render, []) ∧
    ∀ rest, splitHost false (h.render ++ ':' :: rest) = (h.render, ':' :: rest)

/-! ## Addresses -/

theorem ofText_bracket (web : Bool) (cs : List Char) :
    ofText idna web ('[' :: cs) = bracketed ('[' :: cs) := by cases web <;> rfl

theorem bracketed_ipv6Text {pieces : List Nat} (hlength : pieces.length = 8)
    (hpieces : ∀ p ∈ pieces, p < 65536) :
    bracketed ('[' :: ipv6Text pieces ++ [']']) = .ok (.ipv6 pieces) := by
  have hinside : ('[' :: ipv6Text pieces ++ [']']).tail.dropLast = ipv6Text pieces :=
    List.dropLast_concat
  have hclosed : ('[' :: ipv6Text pieces ++ [']']).getLast? = some ']' := List.getLast?_concat
  rw [bracketed, hinside, ipv6?_ipv6Text hlength hpieces]
  exact if_pos hclosed

theorem mem_piecesText {pieces : List Nat} {c : Char} (h : c ∈ piecesText pieces) :
    c = ':' ∨ ∃ d < 16, c = Hex.lower d := by
  fun_induction piecesText pieces with
  | case1 => cases h
  | case2 p => exact .inr (Hex.mem_digits h)
  | case3 p rest hrest ih =>
      rcases List.mem_append.1 h with h | h
      · exact .inr (Hex.mem_digits h)
      · rcases List.mem_cons.1 h with rfl | h
        · exact .inl rfl
        · exact ih h

theorem mem_ipv6Text {pieces : List Nat} {c : Char} (h : c ∈ ipv6Text pieces) :
    isInner c = true ∧ c ≠ ']' := by
  have hlower : ∀ d < 16, isInner (Hex.lower d) = true ∧ Hex.lower d ≠ ']' := by decide
  have hpiece {pieces : List Nat} (h : c ∈ piecesText pieces) : isInner c = true ∧ c ≠ ']' := by
    rcases mem_piecesText h with rfl | ⟨d, hd, rfl⟩
    · decide
    · exact hlower d hd
  rw [ipv6Text] at h
  dsimp only at h
  split at h
  · exact hpiece h
  · rcases List.mem_append.1 h with h | h
    · exact hpiece h
    rcases List.mem_cons.1 h with rfl | h
    · decide
    rcases List.mem_cons.1 h with rfl | h
    · decide
    · exact hpiece h

theorem written_ipv6 (web : Bool) {pieces : List Nat} (hlength : pieces.length = 8)
    (hpieces : ∀ p ∈ pieces, p < 65536) : Written idna web (.ipv6 pieces) where
  again := (ofText_bracket web _).trans (bracketed_ipv6Text hlength hpieces)
  inner := by
    intro c hc
    rcases List.mem_append.1 hc with hc | hc
    · rcases List.mem_cons.1 hc with rfl | hc
      · decide
      · exact (mem_ipv6Text hc).1
    · rw [List.mem_singleton.1 hc]
      decide
  split := by
    have hsplit (rest : List Char) : splitHost false (('[' :: ipv6Text pieces ++ [']']) ++ rest) =
        ('[' :: ipv6Text pieces ++ ']' :: (splitHost false rest).1, (splitHost false rest).2) := by
      rw [List.append_assoc, List.cons_append, List.singleton_append, splitHost]
      show ('[' :: (splitHost true (ipv6Text pieces ++ ']' :: rest)).1,
        (splitHost true (ipv6Text pieces ++ ']' :: rest)).2) = _
      rw [splitHost_brackets fun c hc => (mem_ipv6Text hc).2]
      rfl
    refine ⟨?_, fun rest => hsplit (':' :: rest)⟩
    have hend := hsplit []
    rw [List.append_nil] at hend
    exact hend

theorem written_of_bracketed (web : Bool) {cs : List Char} {h : Host}
    (hread : bracketed cs = .ok h) : Written idna web h := by
  rw [bracketed] at hread
  split at hread
  next pieces hpieces =>
    split at hread
    · obtain rfl := Except.ok.inj hread
      exact written_ipv6 web (ipv6?_pieces hpieces).1 (ipv6?_pieces hpieces).2
    · cases hread
  · cases hread

/-- What no name of the web contains parts no authority either. -/
theorem isInner_of_not_isForbidden {c : Char} (h : isForbidden c = false) :
    isInner c = true ∧ c ≠ ':' ∧ c ≠ '[' ∧ c ≠ '%' := by
  have hne (d : Char) (hd : isForbidden d = true) : c ≠ d := by
    rintro rfl
    exact Bool.noConfusion (h.symm.trans hd)
  have hpadding : isPadding c = false := by
    rw [isForbidden, Bool.or_eq_false_iff, Bool.or_eq_false_iff] at h
    exact h.1.1
  refine ⟨?_, hne _ (by decide), hne _ (by decide), hne _ (by decide)⟩
  rw [isInner, endsAuthority, Path.isSeparator, hpadding, beq_false_of_ne (hne '/' (by decide)),
    beq_false_of_ne (hne '\\' (by decide)), beq_false_of_ne (hne '?' (by decide)),
    beq_false_of_ne (hne '#' (by decide)), bne_iff_ne.2 (hne '@' (by decide))]
  rfl

/-- The text of an authority's host, if no character of it is a bracket or a colon. -/
theorem split_of_plain {cs : List Char} (h : ∀ c ∈ cs, c ≠ ':' ∧ c ≠ '[') :
    splitHost false cs = (cs, []) ∧
      ∀ rest, splitHost false (cs ++ ':' :: rest) = (cs, ':' :: rest) := by
  constructor
  · have hend := splitHost_append h []
    rw [List.append_nil] at hend
    rw [hend]
    show (cs ++ [], []) = (cs, [])
    rw [List.append_nil]
  · intro rest
    rw [splitHost_append h, splitHost_colon, List.append_nil]

/-- How a name of the web is read that is in ASCII already: as an address if it ends in a number,
else as a name. -/
theorem ofWebText_ascii {cs : List Char} (hne : cs ≠ []) (hascii : idna.toAscii cs = some cs)
    (hallowed : ∀ c ∈ cs, isForbidden c = false) :
    ofWebText idna cs =
      if endsInNumber cs then
        match ipv4? cs with
        | some address => .ok (.ipv4 address)
        | none => .error .invalidIpv4
      else .ok (.name (String.ofList cs)) := by
  have hinner {c : Char} (hc : c ∈ cs) := isInner_of_not_isForbidden (hallowed c hc)
  have hbracket : cs.head? ≠ some '[' := fun h =>
    (hinner (List.mem_of_mem_head? h)).2.2.1 rfl
  have hany : cs.any isForbidden = false :=
    List.any_eq_false.2 fun c hc => Bool.not_eq_true _ ▸ hallowed c hc
  rw [ofWebText, if_neg (by simpa using hne), if_neg hbracket,
    Percent.decode_encodeChars fun c hc => (hinner hc).2.2.2, Utf8.decodeChars?_encodeChars,
    Option.bind_some, hascii]
  dsimp only
  rw [hany]
  exact (if_neg Bool.false_ne_true).trans (if_neg (by simpa using hne))

/-! ## Hosts of the web -/

/-- A host with a plain text is read again in an authority if it is read again alone. -/
theorem written_of_plain {h : Host} (hallowed : ∀ c ∈ h.render, isForbidden c = false)
    (hagain : ofWebText idna h.render = .ok h) : Written idna true h where
  again := hagain
  inner c hc := (isInner_of_not_isForbidden (hallowed c hc)).1
  split := split_of_plain fun c hc =>
    have hinner := isInner_of_not_isForbidden (hallowed c hc)
    ⟨hinner.2.1, hinner.2.2.1⟩

theorem mem_natText {n : Nat} {c : Char} (h : c ∈ natText n) :
    isInner c = true ∧ isForbidden c = false ∧ Idna.isAscii c = true ∧
      Literal.lowerAscii c = c ∧ c ≠ 'x' := by
  have hdigit : ∀ d < 10, isInner (Nat.digitChar d) = true ∧
      isForbidden (Nat.digitChar d) = false ∧ Idna.isAscii (Nat.digitChar d) = true ∧
      Literal.lowerAscii (Nat.digitChar d) = Nat.digitChar d ∧ Nat.digitChar d ≠ 'x' := by decide
  obtain ⟨first, others, hlt, htext, -, -⟩ := Numeral.toDigits_eq n
  rw [natText, htext] at h
  obtain ⟨d, hd, rfl⟩ := List.mem_map.1 h
  exact hdigit d (hlt d hd)

theorem mem_ipv4Text {address : Nat} {c : Char} (h : c ∈ ipv4Text address) :
    isForbidden c = false ∧ Idna.isAscii c = true ∧ Literal.lowerAscii c = c := by
  have hdot : isForbidden '.' = false ∧ Idna.isAscii '.' = true ∧
      Literal.lowerAscii '.' = '.' := by decide
  have hnumber {n : Nat} (h : c ∈ natText n) :
      isForbidden c = false ∧ Idna.isAscii c = true ∧ Literal.lowerAscii c = c :=
    have hc := mem_natText h
    ⟨hc.2.1, hc.2.2.1, hc.2.2.2.1⟩
  simp only [ipv4Text, List.mem_append, List.mem_cons] at h
  rcases h with ((h | rfl | h) | rfl | h) | rfl | h
  · exact hnumber h
  · exact hdot
  · exact hnumber h
  · exact hdot
  · exact hnumber h
  · exact hdot
  · exact hnumber h

theorem isEncoded_natText (n : Nat) : Idna.isEncoded (natText n) = false := by
  have hmem {c : Char} (h : c ∈ natText n) := mem_natText h
  revert hmem
  rw [Idna.isEncoded]
  cases natText n with
  | nil => exact fun _ => rfl
  | cons c rest =>
      intro hmem
      obtain ⟨-, -, -, hsame, hx⟩ := hmem (c := c) List.mem_cons_self
      rw [List.map_cons, hsame, List.isPrefixOf_cons_cons, beq_false_of_ne (Ne.symm hx),
        Bool.false_and]

/-- An address is a plain name, as no label of it has a letter. -/
theorem toAscii_ipv4Text (idna : Idna) (address : Nat) :
    idna.toAscii (ipv4Text address) = some (ipv4Text address) := by
  have hlower : (ipv4Text address).map Literal.lowerAscii = ipv4Text address :=
    (List.map_congr_left fun c hc => (mem_ipv4Text hc).2.2).trans (List.map_id _)
  have hplain : Idna.isPlain (ipv4Text address) = true := by
    rw [Idna.isPlain, splitOn_ipv4Text, List.all_eq_true.2 fun c hc => (mem_ipv4Text hc).2.1]
    simp only [List.all_cons, List.all_nil, isEncoded_natText, Bool.not_false, Bool.and_self]
  rw [idna.plain hplain, hlower]

theorem written_ipv4 {address : Nat} (h : address < 4294967296) :
    Written idna true (.ipv4 address) := by
  refine written_of_plain (fun c hc => (mem_ipv4Text hc).1) ?_
  have hne : ipv4Text address ≠ [] := by
    rw [ipv4Text]
    exact fun h => List.cons_ne_nil _ _ (List.append_eq_nil_iff.1 h).2
  show ofWebText idna (ipv4Text address) = _
  rw [ofWebText_ascii hne (toAscii_ipv4Text idna address) fun c hc => (mem_ipv4Text hc).1,
    endsInNumber_ipv4Text, ipv4?_ipv4Text h]
  rfl

theorem written_name {cs : List Char} (hne : cs ≠ []) (hascii : idna.toAscii cs = some cs)
    (hallowed : ∀ c ∈ cs, isForbidden c = false) (hname : endsInNumber cs = false) :
    Written idna true (.name (String.ofList cs)) := by
  have hrender : render (.name (String.ofList cs)) = cs := String.toList_ofList
  refine written_of_plain (fun c hc => hallowed c (hrender ▸ hc)) ?_
  rw [hrender, ofWebText_ascii hne hascii hallowed, hname]
  rfl

/-- A host of the web is read again from its text. -/
theorem written_of_ofWebText {cs : List Char} {h : Host} (hread : ofWebText idna cs = .ok h) :
    Written idna true h ∧ h ≠ .name "" := by
  rw [ofWebText] at hread
  split at hread
  · cases hread
  split at hread
  · refine ⟨written_of_bracketed true hread, ?_⟩
    rintro rfl
    rw [bracketed] at hread
    split at hread
    · split at hread <;> cases hread
    · cases hread
  split at hread
  · cases hread
  next name hascii =>
    obtain ⟨decoded, -, hascii⟩ := Option.bind_eq_some_iff.1 hascii
    split at hread
    · cases hread
    next hany =>
      have hallowed : ∀ c ∈ name, isForbidden c = false := fun c hc =>
        Bool.eq_false_iff.2 fun h => hany (List.any_eq_true.2 ⟨_, hc, h⟩)
      split at hread
      · cases hread
      next hempty =>
        have hne : name ≠ [] := by simpa using hempty
        split at hread
        · split at hread
          next address haddress =>
            obtain rfl := Except.ok.inj hread
            exact ⟨written_ipv4 (ipv4?_lt haddress), nofun⟩
          · cases hread
        next hname =>
          obtain rfl := Except.ok.inj hread
          refine ⟨written_name hne (idna.again hascii) hallowed (Bool.eq_false_iff.2 hname),
            fun h => hne ?_⟩
          exact String.ofList_eq_empty_iff.1 (Host.name.inj h)

/-! ## Other hosts -/

theorem isInner_of_not_isForbiddenVerbatim {c : Char} (h : isForbiddenVerbatim c = false)
    (hcontrol : Percent.isControl c = false) : isInner c = true ∧ c ≠ ':' ∧ c ≠ '[' := by
  have hne (d : Char) (hd : isForbiddenVerbatim d = true) : c ≠ d := by
    rintro rfl
    exact Bool.noConfusion (h.symm.trans hd)
  have hpadding := isPadding_of_not_isControl hcontrol (hne ' ' (by decide))
  refine ⟨?_, hne _ (by decide), hne _ (by decide)⟩
  rw [isInner, endsAuthority, Path.isSeparator, hpadding, beq_false_of_ne (hne '/' (by decide)),
    beq_false_of_ne (hne '\\' (by decide)), beq_false_of_ne (hne '?' (by decide)),
    beq_false_of_ne (hne '#' (by decide)), bne_iff_ne.2 (hne '@' (by decide))]
  rfl

/-- A text in which nothing is forbidden or to be encoded is read again as a name. -/
theorem written_verbatim {cs : List Char}
    (h : ∀ c ∈ cs, isForbiddenVerbatim c = false ∧ Percent.isControl c = false) :
    Written idna false (.name (String.ofList cs)) := by
  have hrender : render (.name (String.ofList cs)) = cs := String.toList_ofList
  have hinner {c : Char} (hc : c ∈ cs) :=
    isInner_of_not_isForbiddenVerbatim (h c hc).1 (h c hc).2
  constructor
  · have hbracket : cs.head? ≠ some '[' := fun h => (hinner (List.mem_of_mem_head? h)).2.2 rfl
    have hany : cs.any isForbiddenVerbatim = false :=
      List.any_eq_false.2 fun c hc => Bool.not_eq_true _ ▸ (h c hc).1
    rw [hrender]
    show ofVerbatimText cs = _
    rw [ofVerbatimText, if_neg hbracket, hany, Percent.encode_of_none fun c hc => (h c hc).2]
    rfl
  · rw [hrender]
    exact fun c hc => (hinner hc).1
  · rw [hrender]
    exact split_of_plain fun c hc => (hinner hc).2

/-- A host of another URL is read again from its text. -/
theorem written_of_ofVerbatimText {cs : List Char} {h : Host} (hread : ofVerbatimText cs = .ok h) :
    Written idna false h := by
  rw [ofVerbatimText] at hread
  split at hread
  · exact written_of_bracketed false hread
  split at hread
  · cases hread
  next hhead hany =>
    obtain rfl := Except.ok.inj hread
    refine written_verbatim fun c hc => ?_
    rcases Percent.mem_encode hc with ⟨hc, hset⟩ | hescape
    · exact ⟨Bool.eq_false_iff.2 fun h => hany (List.any_eq_true.2 ⟨c, hc, h⟩), hset⟩
    · exact Percent.of_isEscapeChar
        (P := fun c => isForbiddenVerbatim c = false ∧ Percent.isControl c = false)
        (by decide) (by decide) hescape

/-- A host is read again by the rules by which it was read. -/
theorem written_of_ofText {web : Bool} {cs : List Char} {h : Host}
    (hread : ofText idna web cs = .ok h) :
    Written idna web h := by
  cases web with
  | true => exact (written_of_ofWebText hread).1
  | false => exact written_of_ofVerbatimText hread

end Host

end HmcClient
