import HmcClient.Proofs.Json.Text
import HmcClient.Proofs.Url.Path
import HmcClient.Url.Host
import Mathlib.Data.List.Induction

/-!
# Addresses that are read again

The text of an address is read as that address. An IPv4 address is written with four decimal numbers
and read with any. The text of an IPv6 address leaves out one run of zeros; the reader notes where it
found the gap and fills it up to eight pieces. So all that matters of the run is that it consists of
zeros (`Host.zeros_longestRun`), not that it is the longest.
-/

namespace HmcClient

/-! ## Digits -/

namespace Hex

theorem mem_digits {n : Nat} {c : Char} (h : c ∈ digits n) : ∃ d < 16, c = lower d := by
  fun_induction digits n with
  | case1 n hn => exact ⟨n, hn, List.mem_singleton.1 h⟩
  | case2 n hn ih =>
      rcases List.mem_append.1 h with h | h
      · exact ih h
      · exact ⟨n % 16, by omega, List.mem_singleton.1 h⟩

theorem digits_ne_nil (n : Nat) : digits n ≠ [] := by
  rw [digits]
  split
  · exact List.cons_ne_nil _ _
  · exact fun h => List.cons_ne_nil _ _ (List.append_eq_nil_iff.1 h).2

theorem length_digits {n k : Nat} (h : n < 16 ^ (k + 1)) : (digits n).length ≤ k + 1 := by
  induction k generalizing n with
  | zero =>
      rw [digits, if_pos (by omega)]
      exact Nat.le_refl 1
  | succ k ih =>
      rw [digits]
      split
      · exact Nat.le_add_left 1 _
      · have hquotient : n / 16 < 16 ^ (k + 1) := by
          rw [Nat.div_lt_iff_lt_mul (by omega), ← Nat.pow_succ]
          exact h
        rw [List.length_append, List.length_singleton]
        exact Nat.succ_le_succ (ih hquotient)

end Hex

namespace Host

theorem digitIn?_lower : ∀ n < 16, digitIn? 16 (Hex.lower n) = some n := by decide

theorem numberIn?_append (base : Nat) (cs : List Char) (c : Char) :
    numberIn? base (cs ++ [c]) =
      (numberIn? base cs).bind fun n => (digitIn? base c).map (n * base + ·) := by
  rw [numberIn?, List.foldlM_append]
  show (numberIn? base cs).bind _ = _
  refine congrArg _ (funext fun n => ?_)
  show ((digitIn? base c).map (n * base + ·)).bind some = _
  cases digitIn? base c <;> rfl

/-- A number written in hexadecimal digits is read again. -/
theorem numberIn?_digits (n : Nat) : numberIn? 16 (Hex.digits n) = some n := by
  fun_induction Hex.digits n with
  | case1 n hn =>
      rw [← List.nil_append [Hex.lower n], numberIn?_append, digitIn?_lower n hn]
      show some (0 * 16 + n) = some n
      rw [Nat.zero_mul, Nat.zero_add]
  | case2 n hn ih =>
      rw [numberIn?_append, ih, digitIn?_lower _ (by omega)]
      show some (n / 16 * 16 + n % 16) = some n
      rw [Nat.div_add_mod']

theorem digitIn?_lt {base : Nat} {c : Char} {d : Nat} (h : digitIn? base c = some d) :
    d < base := by
  rw [digitIn?] at h
  obtain ⟨d', -, h⟩ := Option.bind_eq_some_iff.1 h
  split at h
  next hlt => exact Option.some.inj h ▸ hlt
  · cases h

/-- A number has no more than its digits can say. -/
theorem numberIn?_lt {base : Nat} {cs : List Char} {n : Nat} (h : numberIn? base cs = some n) :
    n < base ^ cs.length := by
  induction cs using List.reverseRecOn generalizing n with
  | nil =>
      obtain rfl := Option.some.inj h
      exact Nat.one_pos
  | append_singleton cs c ih =>
      rw [numberIn?_append] at h
      obtain ⟨m, hm, h⟩ := Option.bind_eq_some_iff.1 h
      obtain ⟨d, hd, rfl⟩ := Option.map_eq_some_iff.1 h
      have hlead := ih hm
      have hlast := digitIn?_lt hd
      rw [List.length_append, List.length_singleton, Nat.pow_succ]
      calc m * base + d < m * base + base := by omega
        _ = (m + 1) * base := by rw [Nat.add_mul, Nat.one_mul]
        _ ≤ base ^ cs.length * base := Nat.mul_le_mul_right base hlead

/-! ## IPv4 -/

theorem digitIn?_digitChar : ∀ d < 10, digitIn? 10 (Nat.digitChar d) = some d ∧
    Literal.isDigit (Nat.digitChar d) = true ∧ Literal.digit? (Nat.digitChar d) = some d := by
  decide

theorem numberIn?_digitChars {ds : List Nat} (h : ∀ d ∈ ds, d < 10) :
    numberIn? 10 (ds.map Nat.digitChar) = some (Numeral.natOf ds) := by
  induction ds using List.reverseRecOn with
  | nil => rfl
  | append_singleton ds d ih =>
      have hd := (digitIn?_digitChar d
        (h d (List.mem_append_right _ (List.mem_singleton_self d)))).1
      rw [List.map_append, List.map_singleton, numberIn?_append,
        ih fun e he => h e (List.mem_append_left _ he), hd, Numeral.natOf_append]
      rfl

/-- A decimal number is read again as a part of an address: it is neither octal nor hexadecimal. -/
theorem ipv4Number?_natText (n : Nat) : ipv4Number? (natText n) = some n := by
  obtain ⟨first, others, hlt, htext, hvalue, hzero⟩ := Numeral.toDigits_eq n
  have hnumber := numberIn?_digitChars hlt
  rw [hvalue] at hnumber
  rw [natText, htext]
  by_cases hfirst : first = 0
  · rw [hzero hfirst] at hnumber ⊢
    rw [hfirst] at hnumber ⊢
    exact hnumber
  · have hne : ∀ d < 10, d ≠ 0 → Nat.digitChar d ≠ '0' := by decide
    have hchar := hne first (hlt first List.mem_cons_self) hfirst
    rw [List.map_cons] at hnumber ⊢
    rw [ipv4Number?]
    · exact hnumber
    · exact List.cons_ne_nil _ _
    · exact fun _ h => hchar (List.cons.inj h).1
    · exact fun _ h => hchar (List.cons.inj h).1
    · exact fun _ _ h => hchar (List.cons.inj h).1

theorem natText_digits (n : Nat) : ∀ c ∈ natText n, Literal.isDigit c = true := by
  obtain ⟨first, others, hlt, htext, -, -⟩ := Numeral.toDigits_eq n
  rw [natText, htext]
  intro c hc
  obtain ⟨d, hd, rfl⟩ := List.mem_map.1 hc
  exact (digitIn?_digitChar d (hlt d hd)).2.1

theorem natText_ne_nil (n : Nat) : natText n ≠ [] := Nat.toDigits_ne_nil

theorem isDigit_ne_dot {c : Char} (h : Literal.isDigit c = true) : c ≠ '.' := by
  rintro rfl
  exact absurd h (by decide)

theorem splitOn_ipv4Text (address : Nat) : splitOn (· == '.') (ipv4Text address) =
    [natText (address / 16777216 % 256), natText (address / 65536 % 256),
      natText (address / 256 % 256), natText (address % 256)] := by
  have hwhole (n : Nat) : splitOn (· == '.') (natText n) = [natText n] :=
    splitOn_of_none fun c hc => beq_false_of_ne (isDigit_ne_dot (natText_digits n c hc))
  rw [ipv4Text, List.append_assoc, List.append_assoc, List.cons_append, List.cons_append,
    splitOn_append _ _ (by rfl), splitOn_append _ _ (by rfl), splitOn_append _ _ (by rfl), hwhole,
    hwhole, hwhole, hwhole]
  rfl

/-- The labels of the text of an address are its four numbers. -/
theorem labels_ipv4Text (address : Nat) : labels (ipv4Text address) =
    [natText (address / 16777216 % 256), natText (address / 65536 % 256),
      natText (address / 256 % 256), natText (address % 256)] := by
  rw [labels, splitOn_ipv4Text]
  exact if_neg fun h => natText_ne_nil _ (Option.some.inj h.2)

theorem endsInNumber_ipv4Text (address : Nat) : endsInNumber (ipv4Text address) = true := by
  rw [endsInNumber, labels_ipv4Text]
  show (!(natText (address % 256)).isEmpty && (natText (address % 256)).all Literal.isDigit ||
    _) = true
  rw [List.isEmpty_eq_false_iff.2 (natText_ne_nil _), List.all_eq_true.2 (natText_digits _)]
  rfl

/-- What one to four numbers make of an address. -/
def address? (weights numbers : List Nat) : Option Nat :=
  numbers.getLast?.bind fun last =>
    if Nat.pow 256 (4 - numbers.dropLast.length) ≤ last ∨ numbers.dropLast.any (255 < ·) then none
    else some <| (numbers.dropLast.zip weights).foldl
      (fun address (n, weight) => address + n * weight) last

theorem ipv4?_eq (cs : List Char) : ipv4? cs =
    if 4 < (labels cs).length then none
    else ((labels cs).mapM ipv4Number?).bind (address? [16777216, 65536, 256]) := by
  rw [ipv4?]
  dsimp only
  split
  · rfl
  · show ((labels cs).mapM ipv4Number?).bind _ = _
    refine congrArg _ (funext fun numbers => ?_)
    show numbers.getLast?.bind _ = numbers.getLast?.bind _
    refine congrArg _ (funext fun last => ?_)
    by_cases hlast : Nat.pow 256 (4 - numbers.dropLast.length) ≤ last
    · rw [if_pos hlast, if_pos (Or.intro_left _ hlast)]
      rfl
    · by_cases hany : numbers.dropLast.any (255 < ·) = true
      · rw [if_neg hlast, if_pos hany, if_pos (Or.intro_right _ hany)]
        rfl
      · rw [if_neg hlast, if_neg hany, if_neg (not_or.2 ⟨hlast, hany⟩)]
        rfl

/-- An IPv4 address is read again from its text. -/
theorem ipv4?_ipv4Text {address : Nat} (h : address < 4294967296) :
    ipv4? (ipv4Text address) = some address := by
  rw [ipv4?_eq, labels_ipv4Text]
  rw [if_neg (show ¬ 4 < List.length [_, _, _, _] from Nat.lt_irrefl 4)]
  simp only [List.mapM_cons, List.mapM_nil, ipv4Number?_natText]
  show address? [16777216, 65536, 256] [address / 16777216 % 256, address / 65536 % 256,
    address / 256 % 256, address % 256] = some address
  simp [address?]
  omega

/-- Four numbers make an address of 32 bits. The weights are named so that they are not computed
with. -/
theorem address?_lt {a b c address : Nat} {numbers : List Nat} (ha : a = 16777216)
    (hb : b = 65536) (hc : c = 256) (hlength : numbers.length ≤ 4)
    (h : address? [a, b, c] numbers = some address) : address < 4294967296 := by
  match numbers with
  | [] => cases h
  | [n] =>
      simp [address?] at h
      omega
  | [n, m] =>
      simp [address?] at h
      subst ha
      omega
  | [n, m, k] =>
      simp [address?] at h
      subst ha hb
      omega
  | [n, m, k, l] =>
      simp [address?] at h
      subst ha hb hc
      omega
  | _ :: _ :: _ :: _ :: _ :: _ => simp only [List.length_cons] at hlength; omega

theorem of_mapM {α β : Type} {f : α → Option β} {xs : List α} {ys : List β}
    (h : xs.mapM f = some ys) : ys.length = xs.length ∧ ∀ y ∈ ys, ∃ x ∈ xs, f x = some y := by
  induction xs generalizing ys with
  | nil =>
      obtain rfl := Option.some.inj h
      exact ⟨rfl, nofun⟩
  | cons x xs ih =>
      rw [List.mapM_cons] at h
      obtain ⟨y, hy, h⟩ := Option.bind_eq_some_iff.1 h
      obtain ⟨others, hothers, h⟩ := Option.bind_eq_some_iff.1 h
      obtain rfl := Option.some.inj h
      obtain ⟨hlength, hmem⟩ := ih hothers
      refine ⟨congrArg (· + 1) hlength, fun z hz => ?_⟩
      rcases List.mem_cons.1 hz with rfl | hz
      · exact ⟨x, List.mem_cons_self, hy⟩
      · obtain ⟨w, hw, hz⟩ := hmem z hz
        exact ⟨w, List.mem_cons_of_mem x hw, hz⟩

theorem ipv4?_lt {cs : List Char} {address : Nat} (h : ipv4? cs = some address) :
    address < 4294967296 := by
  rw [ipv4?_eq] at h
  split at h
  · cases h
  next hlength =>
    obtain ⟨numbers, hnumbers, h⟩ := Option.bind_eq_some_iff.1 h
    exact address?_lt rfl rfl rfl (by rw [(of_mapM hnumbers).1]; omega) h

/-! ## IPv6 -/

section Pieces

variable {found : Pieces} {fuel : Nat}

theorem lower_ne : ∀ d < 16, Hex.lower d ≠ ':' ∧ Hex.lower d ≠ '.' ∧
    (Hex.value? (Hex.lower d)).isSome = true := by decide

/-- The digits of a piece are taken off the front of a text as one piece. -/
theorem takeDigits {p : Nat} (hp : p < 65536) (rest : List Char)
    (hrest : ∀ c ∈ rest.head?, (Hex.value? c).isSome = false) :
    ((Hex.digits p ++ rest).take 4).takeWhile (fun c => (Hex.value? c).isSome) = Hex.digits p := by
  have hlength : (Hex.digits p).length ≤ 4 := Hex.length_digits (k := 3) (by omega)
  have hdigits : ∀ c ∈ Hex.digits p, (Hex.value? c).isSome = true := by
    intro c hc
    obtain ⟨d, hd, rfl⟩ := Hex.mem_digits hc
    exact (lower_ne d hd).2.2
  rw [List.take_append, List.take_of_length_le hlength, List.takeWhile_append_of_pos hdigits]
  cases rest with
  | nil => rw [List.take_nil, List.takeWhile_nil, List.append_nil]
  | cons c rest =>
      cases hroom : 4 - (Hex.digits p).length with
      | zero => rw [List.take_zero, List.takeWhile_nil, List.append_nil]
      | succ room =>
          rw [List.take_succ_cons, List.takeWhile_cons_of_neg
            (by rw [hrest c rfl]; exact Bool.false_ne_true), List.append_nil]

theorem head?_digits (p : Nat) (rest : List Char) : (Hex.digits p ++ rest).head? ≠ some ':' := by
  cases hdigits : Hex.digits p with
  | nil => exact absurd hdigits (Hex.digits_ne_nil p)
  | cons c cs =>
      obtain ⟨d, hd, rfl⟩ := Hex.mem_digits (hdigits ▸ List.mem_cons_self : c ∈ Hex.digits p)
      exact fun h => (lower_ne d hd).1 (Option.some.inj h)

/-- A piece with another part behind it. -/
theorem readPieces?_piece (hroom : found.pieces.length < 8) {p : Nat} (hp : p < 65536)
    {more : List Char} (hmore : more ≠ []) :
    readPieces? (fuel + 1) found (Hex.digits p ++ ':' :: more) =
      readPieces? fuel ⟨found.pieces ++ [p], found.gap⟩ more := by
  have htake := takeDigits hp (':' :: more)
    (fun c hc => Option.some.inj hc ▸ rfl)
  rw [readPieces?, if_neg (by omega), if_neg (head?_digits p _)]
  · rw [htake]
    dsimp only
    rw [List.drop_left]
    show (if more.isEmpty = true then none else (numberIn? 16 (Hex.digits p)).bind fun n =>
      readPieces? fuel ⟨found.pieces ++ [n], found.gap⟩ more) = _
    rw [List.isEmpty_eq_false_iff.2 hmore, numberIn?_digits]
    rfl
  · exact fun h => List.cons_ne_nil _ _ (List.append_eq_nil_iff.1 h).2

/-- The last piece. -/
theorem readPieces?_last (hroom : found.pieces.length < 8) {p : Nat} (hp : p < 65536) :
    readPieces? (fuel + 1) found (Hex.digits p) = some ⟨found.pieces ++ [p], found.gap⟩ := by
  have htake := takeDigits hp [] nofun
  have hhead := head?_digits p []
  have hdrop : (Hex.digits p ++ []).drop (Hex.digits p).length = [] := List.drop_left
  rw [List.append_nil] at htake hhead hdrop
  rw [readPieces?, if_neg (by omega), if_neg hhead]
  · rw [htake]
    dsimp only
    rw [hdrop]
    dsimp only
    rw [numberIn?_digits]
    rfl
  · exact Hex.digits_ne_nil p

/-- The gap. -/
theorem readPieces?_gap (hroom : found.pieces.length < 8) (hgap : found.gap = none)
    (more : List Char) : readPieces? (fuel + 1) found (':' :: more) =
      readPieces? fuel ⟨found.pieces ++ [0], some (found.pieces.length + 1)⟩ more := by
  rw [readPieces?, if_neg (by omega), if_pos (by rfl), hgap]
  · show readPieces? fuel ⟨found.pieces ++ [0], some (found.pieces ++ [0]).length⟩ more = _
    rw [List.length_append]
    rfl
  · exact List.cons_ne_nil _ _

end Pieces

/-- Each piece is a step of the reader, with at least one character. -/
theorem length_piecesText (pieces : List Nat) : pieces.length ≤ (piecesText pieces).length := by
  fun_induction piecesText pieces with
  | case1 => exact Nat.le_refl 0
  | case2 p => exact List.length_pos_iff.2 (Hex.digits_ne_nil p)
  | case3 p rest hrest ih =>
      rw [List.length_append, List.length_cons, List.length_cons]
      omega

theorem piecesText_cons (p : Nat) {rest : List Nat} (h : rest ≠ []) :
    piecesText (p :: rest) = Hex.digits p ++ ':' :: piecesText rest := by
  rw [piecesText]
  exact h

theorem piecesText_ne_nil {pieces : List Nat} (h : pieces ≠ []) : piecesText pieces ≠ [] := by
  intro hnil
  have hlength := length_piecesText pieces
  rw [hnil] at hlength
  exact h (List.length_eq_zero_iff.1 (Nat.le_zero.1 hlength))

/-- Pieces up to the end of the text. -/
theorem readPieces?_piecesText {pieces : List Nat} (hpieces : ∀ p ∈ pieces, p < 65536)
    (found : Pieces) (hroom : found.pieces.length + pieces.length ≤ 8) (fuel : Nat) :
    readPieces? (fuel + pieces.length) found (piecesText pieces) =
      some ⟨found.pieces ++ pieces, found.gap⟩ := by
  induction pieces generalizing found with
  | nil =>
      rw [List.append_nil]
      cases fuel <;> rfl
  | cons p rest ih =>
      have hp := hpieces p List.mem_cons_self
      rw [List.length_cons] at hroom ⊢
      rw [← Nat.add_assoc]
      by_cases hrest : rest = []
      · subst hrest
        exact readPieces?_last (by omega) hp
      · rw [piecesText_cons p hrest, readPieces?_piece (by omega) hp (piecesText_ne_nil hrest),
          ih (fun q hq => hpieces q (List.mem_cons_of_mem _ hq)), List.append_assoc]
        · rfl
        · rw [List.length_append, List.length_singleton]
          omega

/-- Pieces with another part of the text behind them. -/
theorem readPieces?_piecesText_append {pieces : List Nat} (hpieces : ∀ p ∈ pieces, p < 65536)
    (hne : pieces ≠ []) (found : Pieces) (hroom : found.pieces.length + pieces.length ≤ 8)
    (fuel : Nat) {more : List Char} (hmore : more ≠ []) :
    readPieces? (fuel + pieces.length) found (piecesText pieces ++ ':' :: more) =
      readPieces? fuel ⟨found.pieces ++ pieces, found.gap⟩ more := by
  induction pieces generalizing found with
  | nil => exact absurd rfl hne
  | cons p rest ih =>
      have hp := hpieces p List.mem_cons_self
      rw [List.length_cons] at hroom ⊢
      rw [← Nat.add_assoc]
      by_cases hrest : rest = []
      · subst hrest
        exact readPieces?_piece (by omega) hp hmore
      · rw [piecesText_cons p hrest, List.append_assoc, List.cons_append,
          readPieces?_piece (by omega) hp, ih (fun q hq => hpieces q (List.mem_cons_of_mem _ hq))
            hrest, List.append_assoc]
        · rfl
        · rw [List.length_append, List.length_singleton]
          omega
        · exact fun h => List.cons_ne_nil _ _ (List.append_eq_nil_iff.1 h).2

/-- The run that is left out consists of zeros. -/
theorem zeros_longestRun (pieces : List Nat) : ∃ start run, longestRun pieces = (start, run) ∧
    (run = 0 ∨ run = zeroRun (pieces.drop start)) := by
  have hfold (is : List Nat) (best : Nat × Nat)
      (hbest : best.2 = 0 ∨ best.2 = zeroRun (pieces.drop best.1)) :
      let found := is.foldl (fun best i =>
        if best.2 < zeroRun (pieces.drop i) then (i, zeroRun (pieces.drop i)) else best) best
      found.2 = 0 ∨ found.2 = zeroRun (pieces.drop found.1) := by
    induction is generalizing best with
    | nil => exact hbest
    | cons i is ih =>
        refine ih _ ?_
        dsimp only
        split
        · exact .inr rfl
        · exact hbest
  exact ⟨_, _, rfl, hfold _ (0, 0) (.inl rfl)⟩

theorem take_zeroRun (pieces : List Nat) :
    pieces = List.replicate (zeroRun pieces) 0 ++ pieces.drop (zeroRun pieces) := by
  induction pieces with
  | nil => rfl
  | cons p rest ih =>
      by_cases hp : p = 0
      · subst hp
        have hrun : zeroRun (0 :: rest) = zeroRun rest + 1 := rfl
        rw [hrun, List.replicate_succ, List.cons_append, List.drop_succ_cons, ← ih]
      · have hrun : zeroRun (p :: rest) = 0 := by
          rw [zeroRun, List.takeWhile_cons_of_neg (by simpa using hp)]
          rfl
        rw [hrun]
        rfl

/-- The eight pieces of what was found, the gap filled up. -/
def filled? (found : Pieces) : Option (List Nat) :=
  match found.gap with
  | none => if found.pieces.length = 8 then some found.pieces else none
  | some gap =>
    if 8 < found.pieces.length then none
    else some (found.pieces.take gap ++ List.replicate (8 - found.pieces.length) 0 ++
      found.pieces.drop gap)

theorem ipv6?_of_head {cs : List Char} (h : cs.head? ≠ some ':') :
    ipv6? cs = (readPieces? cs.length ⟨[], none⟩ cs).bind filled? := by
  cases cs with
  | nil => rfl
  | cons c rest =>
      have hc : c ≠ ':' := fun hc => h (congrArg some hc)
      rw [ipv6?]
      · rfl
      · exact fun _ heq => hc (List.cons.inj heq).1
      · exact fun _ heq => hc (List.cons.inj heq).1

theorem ipv6?_gap (rest : List Char) :
    ipv6? (':' :: ':' :: rest) = (readPieces? rest.length ⟨[0], some 1⟩ rest).bind filled? := rfl

theorem head?_piecesText (pieces : List Nat) (rest : List Char) (h : pieces ≠ []) :
    (piecesText pieces ++ rest).head? ≠ some ':' := by
  cases pieces with
  | nil => exact absurd rfl h
  | cons p others =>
      by_cases hothers : others = []
      · subst hothers
        exact head?_digits p rest
      · rw [piecesText_cons p hothers, List.append_assoc]
        exact head?_digits p _

/-- A gap is filled with the zeros that were left out. -/
theorem filled?_gap {before after : List Nat} (run : Nat) (hrun : 1 ≤ run)
    (hlength : before.length + run + after.length = 8) :
    filled? ⟨before ++ 0 :: after, some (before.length + 1)⟩ =
      some (before ++ List.replicate run 0 ++ after) := by
  have hfound : (before ++ 0 :: after).length = before.length + 1 + after.length := by
    rw [List.length_append, List.length_cons]
    omega
  have hsplit : before ++ 0 :: after = (before ++ [0]) ++ after := by rw [List.append_assoc]; rfl
  have hgap : (before ++ [0]).length = before.length + 1 := List.length_append
  rw [filled?]
  dsimp only
  rw [hfound, if_neg (by omega), hsplit, List.take_left' hgap, List.drop_left' hgap]
  have hzeros : [0] ++ List.replicate (8 - (before.length + 1 + after.length)) 0 =
      List.replicate run 0 := by
    rw [List.singleton_append, ← List.replicate_succ]
    congr 1
    omega
  rw [List.append_assoc before [0], hzeros]

/-- An IPv6 address is read again from its text. -/
theorem ipv6?_ipv6Text {pieces : List Nat} (hlength : pieces.length = 8)
    (hpieces : ∀ p ∈ pieces, p < 65536) : ipv6? (ipv6Text pieces) = some pieces := by
  obtain ⟨start, run, hrun, hzeros⟩ := zeros_longestRun pieces
  rw [ipv6Text, hrun]
  dsimp only
  by_cases hshort : run < 2
  · rw [if_pos hshort]
    have hne : pieces ≠ [] := by rintro rfl; cases hlength
    have hhead := head?_piecesText pieces [] hne
    rw [List.append_nil] at hhead
    obtain ⟨fuel, hfuel⟩ := Nat.exists_eq_add_of_le' (length_piecesText pieces)
    rw [ipv6?_of_head hhead, hfuel, readPieces?_piecesText hpieces _ (by simp [hlength])]
    exact if_pos hlength
  · rw [if_neg hshort]
    obtain hzeros := hzeros.resolve_left (by omega)
    have hparts := take_zeroRun (pieces.drop start)
    rw [← hzeros, List.drop_drop] at hparts
    have hwhole :
        pieces = pieces.take start ++ List.replicate run 0 ++ pieces.drop (start + run) := by
      rw [List.append_assoc, ← hparts, List.take_append_drop]
    generalize pieces.take start = before at hwhole ⊢
    generalize pieces.drop (start + run) = after at hwhole ⊢
    have htotal : before.length + run + after.length = 8 := by
      rw [hwhole, List.length_append, List.length_append, List.length_replicate] at hlength
      exact hlength
    have hbefore : ∀ p ∈ before, p < 65536 := fun p hp =>
      hpieces p (hwhole ▸ List.mem_append_left _ (List.mem_append_left _ hp))
    have hafter : ∀ p ∈ after, p < 65536 := fun p hp =>
      hpieces p (hwhole ▸ List.mem_append_right _ hp)
    have hfilled := filled?_gap run (by omega) htotal
    rw [← hwhole] at hfilled
    by_cases hnil : before = []
    · subst hnil
      show ipv6? (':' :: ':' :: piecesText after) = some pieces
      obtain ⟨fuel, hfuel⟩ := Nat.exists_eq_add_of_le' (length_piecesText after)
      rw [ipv6?_gap, hfuel, readPieces?_piecesText hafter _ (by
        rw [List.length_singleton]; rw [List.length_nil] at htotal; omega)]
      exact hfilled
    · rw [ipv6?_of_head (head?_piecesText before _ hnil)]
      obtain ⟨fuel, hfuel⟩ : ∃ fuel,
          (piecesText before ++ ':' :: ':' :: piecesText after).length =
            fuel + after.length + 1 + before.length := by
        refine ⟨(piecesText before).length - before.length +
          ((piecesText after).length - after.length) + 1, ?_⟩
        have := length_piecesText before
        have := length_piecesText after
        rw [List.length_append, List.length_cons, List.length_cons]
        omega
      have hroom : 0 < before.length := List.length_pos_iff.2 hnil
      rw [hfuel, readPieces?_piecesText_append hbefore hnil ⟨[], none⟩ (by
          show 0 + before.length ≤ 8
          omega) _ (List.cons_ne_nil _ _),
        readPieces?_gap (by show ([] ++ before).length < 8; rw [List.nil_append]; omega) rfl,
        readPieces?_piecesText hafter]
      · simpa using hfilled
      · simp
        omega

theorem digits_lt {cs : List Char} {n : Nat}
    (h : numberIn? 16 ((cs.take 4).takeWhile fun c => (Hex.value? c).isSome) = some n) :
    n < 65536 := by
  have hlength : ((cs.take 4).takeWhile fun c => (Hex.value? c).isSome).length ≤ 4 :=
    (List.takeWhile_sublist _).length_le.trans (List.length_take_le 4 cs)
  calc n < 16 ^ ((cs.take 4).takeWhile fun c => (Hex.value? c).isSome).length := numberIn?_lt h
    _ ≤ 16 ^ 4 := Nat.pow_le_pow_right (by omega) hlength
    _ = 65536 := rfl

theorem byte?_le {cs : List Char} {n : Nat} (h : byte? cs = some n) : n ≤ 255 := by
  rw [byte?] at h
  split at h
  · cases h
  dsimp only at h
  split at h
  next hle => exact Option.some.inj h ▸ hle
  · cases h

theorem dottedPieces?_lt {cs : List Char} {pieces : List Nat} (h : dottedPieces? cs = some pieces) :
    ∀ p ∈ pieces, p < 65536 := by
  obtain ⟨bytes, hbytes, h⟩ := Option.bind_eq_some_iff.1 h
  have hle : ∀ b ∈ bytes, b ≤ 255 := fun b hb =>
    have ⟨_, _, hbyte⟩ := (of_mapM hbytes).2 b hb
    byte?_le hbyte
  split at h
  next a b c d =>
    obtain rfl := Option.some.inj h
    simp only [List.forall_mem_cons] at hle ⊢
    exact ⟨by omega, by omega, nofun⟩
  · cases h

theorem readPieces?_lt {fuel : Nat} {found result : Pieces} {cs : List Char}
    (hfound : ∀ p ∈ found.pieces, p < 65536) (h : readPieces? fuel found cs = some result) :
    ∀ p ∈ result.pieces, p < 65536 := by
  have hpush {found : Pieces} (hfound : ∀ p ∈ found.pieces, p < 65536) {others : List Nat}
      (hothers : ∀ p ∈ others, p < 65536) : ∀ q ∈ found.pieces ++ others, q < 65536 :=
    fun q hq => (List.mem_append.1 hq).elim (hfound q) (hothers q)
  have hpiece {p : Nat} (hp : p < 65536) : ∀ q ∈ [p], q < 65536 :=
    fun q hq => List.mem_singleton.1 hq ▸ hp
  fun_induction readPieces? fuel found cs with
  | case1 fuel found =>
      obtain rfl := Option.some.inj h
      exact hfound
  | case2 | case3 | case4 | case6 | case8 | case11 => cases h
  | case5 fuel found cs _ _ _ _ pieces ih => exact ih (hpush hfound (hpiece (by omega))) h
  | case7 fuel found cs _ _ _ digits rest tail _ _ =>
      obtain ⟨last, hlast, rfl⟩ := Option.map_eq_some_iff.1 h
      exact hpush hfound (dottedPieces?_lt hlast)
  | case9 fuel found cs _ _ _ digits rest more _ _ ih =>
      obtain ⟨n, hn, h⟩ := Option.bind_eq_some_iff.1 h
      exact ih n (hpush hfound (hpiece (digits_lt hn))) h
  | case10 fuel found cs _ _ _ digits rest _ =>
      obtain ⟨n, hn, h⟩ := Option.bind_eq_some_iff.1 h
      obtain rfl := Option.some.inj h
      exact hpush hfound (hpiece (digits_lt hn))

theorem filled?_pieces {found : Pieces} {pieces : List Nat}
    (hfound : ∀ p ∈ found.pieces, p < 65536) (h : filled? found = some pieces) :
    pieces.length = 8 ∧ ∀ p ∈ pieces, p < 65536 := by
  rw [filled?] at h
  split at h
  · split at h
    next hlength =>
      obtain rfl := Option.some.inj h
      exact ⟨hlength, hfound⟩
    · cases h
  next gap hgap =>
    split at h
    · cases h
    next hlength =>
      obtain rfl := Option.some.inj h
      refine ⟨?_, fun p hp => ?_⟩
      · rw [List.length_append, List.length_append, List.length_take, List.length_replicate,
          List.length_drop]
        omega
      · rcases List.mem_append.1 hp with hp | hp
        · rcases List.mem_append.1 hp with hp | hp
          · exact hfound p (List.mem_of_mem_take hp)
          · rw [List.eq_of_mem_replicate hp]
            omega
        · exact hfound p (List.mem_of_mem_drop hp)

/-- What an IPv6 address is read as: eight pieces of 16 bits. -/
theorem ipv6?_pieces {cs : List Char} {pieces : List Nat} (h : ipv6? cs = some pieces) :
    pieces.length = 8 ∧ ∀ p ∈ pieces, p < 65536 := by
  have hread {fuel : Nat} {found : Pieces} {cs : List Char}
      (hfound : ∀ p ∈ found.pieces, p < 65536)
      (h : (readPieces? fuel found cs).bind filled? = some pieces) :
      pieces.length = 8 ∧ ∀ p ∈ pieces, p < 65536 := by
    obtain ⟨result, hresult, h⟩ := Option.bind_eq_some_iff.1 h
    exact filled?_pieces (readPieces?_lt hfound hresult) h
  by_cases hhead : cs.head? = some ':'
  · obtain ⟨rest, rfl⟩ : ∃ rest, cs = ':' :: rest := by
      cases cs with
      | nil => cases hhead
      | cons c rest => exact ⟨rest, congrArg (· :: rest) (Option.some.inj hhead)⟩
    cases rest with
    | nil => cases h
    | cons c rest =>
        by_cases hc : c = ':'
        · subst hc
          rw [ipv6?_gap] at h
          exact hread (fun p hp => by rw [List.mem_singleton.1 hp]; omega) h
        · rw [ipv6?] at h
          · cases h
          · exact fun _ heq => hc (List.cons.inj heq).1
  · rw [ipv6?_of_head hhead] at h
    exact hread (fun p hp => absurd hp List.not_mem_nil) h

end Host

end HmcClient
