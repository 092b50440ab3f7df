import HmcClient.Proofs.Text.Utf8
import HmcClient.Url.Input
import HmcClient.Url.Path

/-!
# Paths that are read again

A segment that is kept has nothing left to encode and is no dot segment, so a path whose segments
are all kept ones stays as it is when its text is read again, and what is appended to it is resolved
on top of it. That a kept segment is no dot segment needs care, because dots may be written as
escapes: encoding never writes a dot as one, nor does it put together an escape from a percent sign
and what follows it (`decodeDots_encode`).

`Path.Stays` says of segments that they never drop more than they have added. Resolved on top of a
path, they leave it as it is.
-/

namespace HmcClient

/-! ## Splitting -/

namespace Host

variable {α : Type} {isSeparator : α → Bool}

theorem splitOn_ne_nil (isSeparator : α → Bool) (xs : List α) : splitOn isSeparator xs ≠ [] := by
  cases xs with
  | nil => simp [splitOn]
  | cons a rest =>
      rw [splitOn]
      split
      · simp
      · split <;> simp

theorem splitOn_of_none {xs : List α} (h : ∀ x ∈ xs, isSeparator x = false) :
    splitOn isSeparator xs = [xs] := by
  induction xs with
  | nil => rfl
  | cons a rest ih =>
      rw [splitOn, h a List.mem_cons_self, ih fun x hx => h x (List.mem_cons_of_mem a hx)]
      rfl

/-- A separator between two texts parts what they are split into. -/
theorem splitOn_append (xs : List α) {s : α} (ys : List α) (hs : isSeparator s = true) :
    splitOn isSeparator (xs ++ s :: ys) = splitOn isSeparator xs ++ splitOn isSeparator ys := by
  induction xs with
  | nil =>
      show splitOn isSeparator (s :: ys) = [] :: splitOn isSeparator ys
      rw [splitOn, if_pos hs]
  | cons a rest ih =>
      rw [List.cons_append, splitOn, splitOn, ih]
      split
      · rfl
      · cases hsplit : splitOn isSeparator rest with
        | nil => exact absurd hsplit (splitOn_ne_nil isSeparator rest)
        | cons part parts => rfl

theorem mem_splitOn {xs part : List α} {x : α} (hpart : part ∈ splitOn isSeparator xs)
    (hx : x ∈ part) : isSeparator x = false := by
  induction xs generalizing part with
  | nil =>
      rw [List.mem_singleton.1 hpart] at hx
      cases hx
  | cons a rest ih =>
      rw [splitOn] at hpart
      split at hpart
      · rcases List.mem_cons.1 hpart with rfl | hpart
        · cases hx
        · exact ih hpart hx
      next ha =>
        split at hpart
        · rw [List.mem_singleton.1 hpart] at hx
          rw [List.mem_singleton.1 hx]
          exact Bool.eq_false_iff.2 ha
        next first parts hsplit =>
          rw [hsplit] at ih
          rcases List.mem_cons.1 hpart with rfl | hpart
          · rcases List.mem_cons.1 hx with rfl | hx
            · exact Bool.eq_false_iff.2 ha
            · exact ih (List.mem_cons_self ..) hx
          · exact ih (List.mem_cons_of_mem _ hpart) hx

end Host

/-! ## Encoding -/

namespace Percent

theorem encode_cons (set : Char → Bool) (c : Char) (cs : List Char) :
    encode set (c :: cs) = encodeChar set c ++ encode set cs := rfl

theorem encodeChar_of_not {set : Char → Bool} {c : Char} (h : set c = false) :
    encodeChar set c = [c] := by
  rw [encodeChar, h]
  rfl

theorem encode_of_none {set : Char → Bool} {cs : List Char} (h : ∀ c ∈ cs, set c = false) :
    encode set cs = cs := by
  induction cs with
  | nil => rfl
  | cons c cs ih =>
      rw [encode_cons, encodeChar_of_not (h c List.mem_cons_self),
        ih fun c hc => h c (List.mem_cons_of_mem _ hc)]
      rfl

/-- The characters of an escape. -/
def isEscapeChar (c : Char) : Bool := c == '%' || (List.range 16).any fun n => Hex.upper n == c

theorem mem_escape {b : UInt8} {c : Char} (h : c ∈ escape b) : isEscapeChar c = true := by
  have hupper : ∀ n < 16, isEscapeChar (Hex.upper n) = true := by decide
  simp only [escape, List.mem_cons, List.not_mem_nil, or_false] at h
  have hb := b.toNat_lt
  rcases h with rfl | rfl | rfl
  · rfl
  · exact hupper _ (by omega)
  · exact hupper _ (by omega)

theorem mem_encode {set : Char → Bool} {cs : List Char} {c : Char} (h : c ∈ encode set cs) :
    c ∈ cs ∧ set c = false ∨ isEscapeChar c = true := by
  obtain ⟨d, hd, h⟩ := List.mem_flatMap.1 h
  rw [encodeChar] at h
  split at h
  · obtain ⟨b, -, h⟩ := List.mem_flatMap.1 h
    exact .inr (mem_escape h)
  next hset =>
    obtain rfl := List.mem_singleton.1 h
    exact .inl ⟨hd, Bool.eq_false_iff.2 hset⟩

/-- What holds of the percent sign and of digits holds of all characters of escapes. -/
theorem of_isEscapeChar {P : Char → Prop} (hpercent : P '%')
    (hupper : ∀ n ∈ List.range 16, P (Hex.upper n)) {c : Char} (h : isEscapeChar c = true) :
    P c := by
  rcases Bool.or_eq_true_iff.1 h with h | h
  · exact beq_iff_eq.1 h ▸ hpercent
  · obtain ⟨n, hn, h⟩ := List.any_eq_true.1 h
    exact beq_iff_eq.1 h ▸ hupper n hn

/-- Encoding leaves nothing to encode, if the set has no character of escapes. -/
theorem encode_encoded {set : Char → Bool} (hset : ∀ {c}, isEscapeChar c = true → set c = false)
    (cs : List Char) : ∀ c ∈ encode set cs, set c = false := fun c hc => by
  rcases mem_encode hc with ⟨-, hc⟩ | hc
  · exact hc
  · exact hset hc

theorem not_inPath_of_isEscapeChar {c : Char} (h : isEscapeChar c = true) :
    inPath c = false ∧ Url.Path.isSeparator true c = false :=
  of_isEscapeChar (P := fun c => inPath c = false ∧ Url.Path.isSeparator true c = false)
    (by decide) (by decide) h

/-- An encoded text starts like the text, or with an escape. -/
theorem eq_of_encode_eq_cons {set : Char → Bool} {cs ds : List Char} {d : Char}
    (h : encode set cs = d :: ds) (hd : d ≠ '%') :
    ∃ rest, cs = d :: rest ∧ encode set rest = ds := by
  cases cs with
  | nil => cases h
  | cons c cs =>
      rw [encode_cons, encodeChar] at h
      split at h
      · cases hbytes : Utf8.encodeChar c with
        | nil => exact absurd hbytes (Utf8.encodeChar_ne_nil c)
        | cons b bytes =>
            rw [hbytes, List.flatMap_cons] at h
            exact absurd (List.cons.inj h).1.symm hd
      · obtain ⟨rfl, rfl⟩ := List.cons.inj h
        exact ⟨cs, rfl, rfl⟩

theorem eq_nil_of_encode_eq_nil {set : Char → Bool} {cs : List Char} (h : encode set cs = []) :
    cs = [] := by
  cases cs with
  | nil => rfl
  | cons c cs =>
      rw [encode_cons, encodeChar] at h
      split at h
      · cases hbytes : Utf8.encodeChar c with
        | nil => exact absurd hbytes (Utf8.encodeChar_ne_nil c)
        | cons b bytes => rw [hbytes, List.flatMap_cons] at h; cases h
      · cases h

end Percent

/-! ## Dot segments -/

namespace Url.Path

open Percent

theorem decodeDots_cons {c : Char} (h : c ≠ '%') (cs : List Char) :
    decodeDots (c :: cs) = c :: decodeDots cs := by
  rw [decodeDots]
  · rintro _ rfl; exact absurd rfl h
  · rintro _ rfl; exact absurd rfl h

/-- Escapes of anything but dots are left as they are. -/
theorem decodeDots_escape {b : UInt8} (h : b.toNat ≠ 0x2E) (cs : List Char) :
    decodeDots (escape b ++ cs) = escape b ++ decodeDots cs := by
  have hupper : ∀ n < 16, Hex.upper n ≠ '%' ∧ Hex.upper n ≠ 'e' ∧ (Hex.upper n = '2' → n = 2) ∧
      (Hex.upper n = 'E' → n = 14) := by decide
  have hb := b.toNat_lt
  obtain ⟨hhigh, -, htwo, -⟩ := hupper (b.toNat / 16) (by omega)
  obtain ⟨hlow, he, -, hfourteen⟩ := hupper (b.toNat % 16) (by omega)
  show decodeDots ('%' :: Hex.upper (b.toNat / 16) :: Hex.upper (b.toNat % 16) :: cs) =
    '%' :: Hex.upper (b.toNat / 16) :: Hex.upper (b.toNat % 16) :: decodeDots cs
  rw [decodeDots, decodeDots_cons hhigh, decodeDots_cons hlow]
  · intro rest _ heq
    exact he (List.cons.inj (List.cons.inj heq).2).1
  · intro rest _ heq
    obtain ⟨hfirst, hrest⟩ := List.cons.inj heq
    have := htwo hfirst
    have := hfourteen (List.cons.inj hrest).1
    omega

theorem decodeDots_escapes {bytes : List UInt8} (h : ∀ b ∈ bytes, b.toNat ≠ 0x2E)
    (cs : List Char) : decodeDots (bytes.flatMap escape ++ cs) =
      bytes.flatMap escape ++ decodeDots cs := by
  induction bytes with
  | nil => rfl
  | cons b bytes ih =>
      rw [List.flatMap_cons, List.append_assoc, decodeDots_escape (h b List.mem_cons_self),
        ih fun b hb => h b (List.mem_cons_of_mem _ hb), List.append_assoc]

/-- Encoding leaves dots as they are written. -/
theorem decodeDots_encode (cs : List Char) :
    decodeDots (encode inPath cs) = encode inPath (decodeDots cs) := by
  fun_induction decodeDots cs with
  | case1 rest ih => exact congrArg ('.' :: ·) ih
  | case2 rest ih => exact congrArg ('.' :: ·) ih
  | case3 c rest hlower hupper ih =>
      rw [encode_cons, encode_cons]
      by_cases hset : inPath c = true
      · rw [encodeChar, if_pos hset, decodeDots_escapes, ih]
        intro b hb hdot
        rcases Utf8.mem_encodeChar hb with ⟨-, hc⟩ | hc
        · rw [Char.toNat_inj.1 (show c.toNat = '.'.toNat by rw [← hc, hdot]; rfl)] at hset
          exact absurd hset (by decide)
        · omega
      · rw [encodeChar_of_not (Bool.eq_false_iff.2 hset), List.singleton_append,
          List.singleton_append, decodeDots, ih]
        · intro ds hc hds
          obtain ⟨rest', rfl, hrest'⟩ := eq_of_encode_eq_cons hds (by decide)
          obtain ⟨rest'', rfl, -⟩ := eq_of_encode_eq_cons hrest' (by decide)
          exact hlower _ hc rfl
        · intro ds hc hds
          obtain ⟨rest', rfl, hrest'⟩ := eq_of_encode_eq_cons hds (by decide)
          obtain ⟨rest'', rfl, -⟩ := eq_of_encode_eq_cons hrest' (by decide)
          exact hupper _ hc rfl
  | case4 => rfl

theorem meaning_eq_ordinary {segment : List Char} :
    meaning segment = .ordinary ↔
      decodeDots segment ≠ ['.'] ∧ decodeDots segment ≠ ['.', '.'] := by
  rw [meaning]
  split
  next h => simp [h]
  next h => simp [h]
  next hsingle hdouble => exact ⟨fun _ => ⟨hsingle, hdouble⟩, fun _ => rfl⟩

/-- Encoding makes no dot segments. -/
theorem meaning_encode {segment : List Char} (h : meaning segment = .ordinary) :
    meaning (encode inPath segment) = .ordinary := by
  rw [meaning_eq_ordinary] at h ⊢
  rw [decodeDots_encode]
  refine ⟨fun hsingle => h.1 ?_, fun hdouble => h.2 ?_⟩
  · obtain ⟨rest, hrest, hnil⟩ := eq_of_encode_eq_cons hsingle (by decide)
    rw [hrest, eq_nil_of_encode_eq_nil hnil]
  · obtain ⟨rest, hrest, hone⟩ := eq_of_encode_eq_cons hdouble (by decide)
    obtain ⟨rest', hrest', hnil⟩ := eq_of_encode_eq_cons hone (by decide)
    rw [hrest, hrest', eq_nil_of_encode_eq_nil hnil]

/-! ## Kept segments -/

/-- Whether a segment is as it is kept: with nothing to encode, no separator and no dots. -/
structure Kept (segment : String) : Prop where
  encoded : ∀ c ∈ segment.toList, inPath c = false
  whole : ∀ c ∈ segment.toList, isSeparator true c = false
  ordinary : meaning segment.toList = .ordinary

theorem Kept.empty : Kept "" := ⟨nofun, nofun, rfl⟩

theorem Kept.encodeSegment_eq {segment : String} (h : Kept segment) :
    encodeSegment segment.toList = segment := by
  rw [encodeSegment, encode_of_none h.encoded, String.ofList_toList]

theorem Kept.of_ordinary {segment : List Char} (hwhole : ∀ c ∈ segment, isSeparator true c = false)
    (h : meaning segment = .ordinary) : Kept (encodeSegment segment) := by
  have hchars : ∀ c ∈ encode inPath segment, inPath c = false ∧ isSeparator true c = false := by
    intro c hc
    rcases mem_encode hc with ⟨hc, hset⟩ | hc
    · exact ⟨hset, hwhole c hc⟩
    · exact not_inPath_of_isEscapeChar hc
  constructor
  all_goals rw [encodeSegment, String.toList_ofList]
  · exact fun c hc => (hchars c hc).1
  · exact fun c hc => (hchars c hc).2
  · exact meaning_encode h

theorem mem_dropLastSegment {kept : List String} {s : String} (h : s ∈ dropLastSegment kept) :
    s ∈ kept := by
  cases kept with
  | nil => exact h
  | cons last before =>
      rw [dropLastSegment] at h
      split at h
      · exact h
      · exact List.mem_cons_of_mem _ h

/-- All segments of a resolved path are kept ones, and there is at least one. -/
theorem kept_of_resolve {kept : List String} {segments : List (List Char)}
    (hkept : ∀ s ∈ kept, Kept s)
    (hwhole : ∀ segment ∈ segments, ∀ c ∈ segment, isSeparator true c = false) :
    ∀ s ∈ resolve kept segments, Kept s := by
  have hpush {s : String} {kept : List String} (hs : Kept s) (hkept : ∀ s ∈ kept, Kept s) :
      ∀ t ∈ (s :: kept).reverse, Kept t := by
    intro t ht
    rcases List.mem_cons.1 (List.mem_reverse.1 ht) with rfl | ht
    · exact hs
    · exact hkept t ht
  fun_induction resolve kept segments with
  | case1 kept => exact fun s hs => hkept s (List.mem_reverse.1 hs)
  | case2 kept last hmeaning => exact hpush .empty hkept
  | case3 kept last hmeaning =>
      exact hpush .empty fun s hs => hkept s (mem_dropLastSegment hs)
  | case4 kept last hmeaning =>
      exact hpush (.of_ordinary (hwhole last List.mem_cons_self) hmeaning) hkept
  | case5 kept segment rest hrest hmeaning ih =>
      exact ih hkept fun s hs => hwhole s (List.mem_cons_of_mem _ hs)
  | case6 kept segment rest hrest hmeaning ih =>
      exact ih (fun s hs => hkept s (mem_dropLastSegment hs))
        fun s hs => hwhole s (List.mem_cons_of_mem _ hs)
  | case7 kept segment rest hrest hmeaning ih =>
      refine ih (fun s hs => ?_) fun s hs => hwhole s (List.mem_cons_of_mem _ hs)
      rcases List.mem_cons.1 hs with rfl | hs
      · exact .of_ordinary (hwhole segment List.mem_cons_self) hmeaning
      · exact hkept s hs

/-! ## Reading a path again -/

theorem resolve_append {base : List String} (hbase : ∀ s ∈ base, Kept s) (kept : List String)
    {rest : List (List Char)} (hrest : rest ≠ []) :
    resolve kept (base.map String.toList ++ rest) = resolve (base.reverse ++ kept) rest := by
  induction base generalizing kept with
  | nil => rfl
  | cons s base ih =>
      have hs := hbase s List.mem_cons_self
      rw [List.map_cons, List.cons_append, resolve, hs.ordinary]
      · dsimp only
        rw [ih (fun t ht => hbase t (List.mem_cons_of_mem _ ht)), hs.encodeSegment_eq,
          List.reverse_cons, List.append_assoc]
        rfl
      · exact fun h => hrest (List.append_eq_nil_iff.1 h).2

theorem segmentsText_append (items more : List String) :
    segmentsText (items ++ more) = segmentsText items ++ segmentsText more := List.flatMap_append

theorem segmentsText_concat (items : List String) (last : String) :
    segmentsText (items ++ [last]) = segmentsText items ++ '/' :: last.toList := by
  rw [segmentsText_append, segmentsText, segmentsText, List.flatMap_singleton]

theorem splitOn_segmentsText {base : List String} (hbase : ∀ s ∈ base, Kept s) {first : List Char}
    (hfirst : ∀ c ∈ first, isSeparator true c = false) (tail : List Char) :
    Host.splitOn (isSeparator true) (first ++ (segmentsText base ++ '/' :: tail)) =
      first :: (base.map String.toList ++ Host.splitOn (isSeparator true) tail) := by
  induction base generalizing first with
  | nil =>
      show Host.splitOn (isSeparator true) (first ++ '/' :: tail) = _
      rw [Host.splitOn_append first tail rfl, Host.splitOn_of_none hfirst]
      rfl
  | cons s base ih =>
      show Host.splitOn (isSeparator true)
        (first ++ '/' :: (s.toList ++ segmentsText base ++ '/' :: tail)) = _
      rw [Host.splitOn_append first _ rfl, Host.splitOn_of_none hfirst, List.append_assoc,
        ih (fun t ht => hbase t (List.mem_cons_of_mem _ ht)) (hbase s List.mem_cons_self).whole]
      rfl

/-- What stands behind a path of kept segments is resolved on top of it. -/
theorem ofText_append {base : List String} (hbase : ∀ s ∈ base, Kept s) (tail : List Char) :
    ofText true (segmentsText base ++ '/' :: tail) =
      resolve base.reverse (Host.splitOn (isSeparator true) tail) := by
  have hsplit : Host.splitOn (isSeparator true)
      (dropLeading true (segmentsText base ++ '/' :: tail)) =
        base.map String.toList ++ Host.splitOn (isSeparator true) tail := by
    cases base with
    | nil => rfl
    | cons s base =>
        show Host.splitOn (isSeparator true) (s.toList ++ segmentsText base ++ '/' :: tail) = _
        rw [List.append_assoc, splitOn_segmentsText
          (fun t ht => hbase t (List.mem_cons_of_mem _ ht)) (hbase s List.mem_cons_self).whole]
        rfl
  rw [ofText, if_neg (by simp), hsplit, resolve_append hbase [] (Host.splitOn_ne_nil _ _),
    List.append_nil]

/-- A path of kept segments stays as it is. -/
theorem ofText_segmentsText {base : List String} (hbase : ∀ s ∈ base, Kept s) (hne : base ≠ []) :
    ofText true (segmentsText base) = base := by
  obtain ⟨init, last, rfl⟩ : ∃ init last, base = init ++ [last] :=
    ⟨_, _, (List.dropLast_concat_getLast hne).symm⟩
  have hlast := hbase last (List.mem_append_right _ (List.mem_singleton_self last))
  rw [segmentsText_concat, ofText_append fun s hs => hbase s (List.mem_append_left _ hs),
    Host.splitOn_of_none hlast.whole, resolve, hlast.ordinary]
  dsimp only
  rw [hlast.encodeSegment_eq, List.reverse_cons, List.reverse_reverse]

theorem kept_of_ofText (cs : List Char) : ∀ s ∈ ofText true cs, Kept s := by
  rw [ofText, if_neg (by simp)]
  exact kept_of_resolve nofun fun segment hsegment c hc => Host.mem_splitOn hsegment hc

/-- Nothing in the text of a path of kept segments is skipped. -/
theorem skim_segmentsText {base : List String} (hbase : ∀ s ∈ base, Kept s) (rest : List Char) :
    skim (segmentsText base ++ rest) = segmentsText base ++ skim rest := by
  have hskipped : ∀ c, isSkipped c = true → inPath c = true := by
    intro c hc
    simp only [isSkipped, Bool.or_eq_true, beq_iff_eq] at hc
    rcases hc with (rfl | rfl) | rfl
    all_goals rfl
  rw [skim, List.filter_append, List.filter_eq_self.2]
  · rfl
  intro c hc
  obtain ⟨s, hs, hc⟩ := List.mem_flatMap.1 hc
  rcases List.mem_cons.1 hc with rfl | hc
  · rfl
  · have hencoded := (hbase s hs).encoded c hc
    cases h : isSkipped c with
    | false => rfl
    | true => rw [hskipped c h] at hencoded; cases hencoded

theorem skim_segmentsText_self {base : List String} (hbase : ∀ s ∈ base, Kept s) :
    skim (segmentsText base) = segmentsText base := by
  have hskim := skim_segmentsText hbase []
  rwa [List.append_nil, show skim [] = [] from rfl, List.append_nil] at hskim

/-! ## Paths that lie below a path -/

theorem splitOn_path {items : List String} (h : ∀ s ∈ items, Kept s) :
    Host.splitOn (isSeparator true) (segmentsText items) = [] :: items.map String.toList := by
  rcases List.eq_nil_or_concat items with rfl | ⟨init, last, rfl⟩
  · rfl
  · rw [List.concat_eq_append] at h ⊢
    have hlast := h last (List.mem_append_right _ (List.mem_singleton_self last))
    have hsplit := splitOn_segmentsText (fun s hs => h s (List.mem_append_left _ hs))
      (List.forall_mem_nil _) last.toList
    rw [segmentsText_concat, ← List.nil_append (segmentsText init ++ _), hsplit,
      Host.splitOn_of_none hlast.whole, List.map_append, List.map_singleton]

/-- A path of kept segments is another one or lies below it if and only if it starts with the other
one's segments. -/
theorem prefix_iff_segmentsText {base items : List String} (hbase : ∀ s ∈ base, Kept s)
    (hitems : ∀ s ∈ items, Kept s) :
    base <+: items ↔ segmentsText items = segmentsText base ∨
      segmentsText base ++ ['/'] <+: segmentsText items := by
  constructor
  · rintro ⟨_ | ⟨s, more⟩, rfl⟩
    · exact .inl (by rw [List.append_nil])
    · refine .inr ⟨s.toList ++ segmentsText more, ?_⟩
      rw [segmentsText_append, List.append_assoc]
      rfl
  · intro h
    have hsplit : ∃ more, base.map String.toList ++ more = items.map String.toList := by
      have hwhole := splitOn_path hitems
      rcases h with h | ⟨tail, h⟩
      · rw [h, splitOn_path hbase] at hwhole
        exact ⟨[], (List.append_nil _).trans (List.cons.inj hwhole).2⟩
      · rw [← h, List.append_assoc, ← List.nil_append (segmentsText base ++ _),
          List.singleton_append, splitOn_segmentsText hbase (List.forall_mem_nil _)] at hwhole
        exact ⟨_, (List.cons.inj hwhole).2⟩
    exact (List.prefix_map_iff_of_injective fun _ _ => String.toList_inj.1).1 hsplit

/-! ## Segments that stay above a path -/

/-- Whether segments, on top of `depth` others, never drop more than there are. -/
def Stays : Nat → List (List Char) → Prop
  | _, [] => True
  | depth, segment :: rest =>
    match meaning segment with
    | .single => Stays depth rest
    | .double => 0 < depth ∧ Stays (depth - 1) rest
    | .ordinary => Stays (depth + 1) rest

instance decidableStays : (depth : Nat) → (segments : List (List Char)) →
    Decidable (Stays depth segments)
  | _, [] => .isTrue trivial
  | depth, segment :: rest =>
    have (n : Nat) : Decidable (Stays n rest) := decidableStays n rest
    match hmeaning : meaning segment with
    | .single => decidable_of_iff (Stays depth rest) (by rw [Stays, hmeaning])
    | .double => decidable_of_iff (0 < depth ∧ Stays (depth - 1) rest) (by rw [Stays, hmeaning])
    | .ordinary => decidable_of_iff (Stays (depth + 1) rest) (by rw [Stays, hmeaning])

/-- Segments of which none is a double dot stay above any path. -/
theorem stays_of_ne_double {segments : List (List Char)}
    (h : ∀ segment ∈ segments, meaning segment ≠ .double) (depth : Nat) :
    Stays depth segments := by
  induction segments generalizing depth with
  | nil => trivial
  | cons segment rest ih =>
      have hrest := ih fun s hs => h s (List.mem_cons_of_mem _ hs)
      rw [Stays]
      cases hmeaning : meaning segment with
      | single => exact hrest depth
      | double => exact absurd hmeaning (h segment List.mem_cons_self)
      | ordinary => exact hrest (depth + 1)

/-- At most one segment is dropped. -/
theorem dropLastSegment_append {kept : List String} (hne : kept ≠ []) (below : List String) :
    ∃ kept', dropLastSegment (kept ++ below) = kept' ++ below ∧ kept.length ≤ kept'.length + 1 := by
  cases kept with
  | nil => exact absurd rfl hne
  | cons last before =>
      rw [List.cons_append, dropLastSegment]
      split
      · exact ⟨last :: before, rfl, Nat.le_succ _⟩
      · exact ⟨before, rfl, Nat.le_refl _⟩

/-- Segments that stay above a path leave it as it is. -/
theorem resolve_of_stays (base kept : List String) {depth : Nat} (hdepth : depth ≤ kept.length)
    {segments : List (List Char)} (h : Stays depth segments) :
    base <+: resolve (kept ++ base.reverse) segments := by
  induction segments generalizing kept depth with
  | nil =>
      refine ⟨kept.reverse, ?_⟩
      rw [resolve, List.reverse_append, List.reverse_reverse]
  | cons segment rest ih =>
      have hlast (s : String) (kept : List String) :
          base <+: (s :: (kept ++ base.reverse)).reverse := by
        refine ⟨kept.reverse ++ [s], ?_⟩
        rw [List.reverse_cons, List.reverse_append, List.reverse_reverse, List.append_assoc]
      rw [Stays] at h
      cases hrest : rest with
      | nil =>
          rw [resolve]
          cases hmeaning : meaning segment with
          | single => exact hlast "" kept
          | double =>
              rw [hmeaning] at h
              obtain ⟨kept', hdrop, -⟩ := dropLastSegment_append
                (List.ne_nil_of_length_pos (Nat.lt_of_lt_of_le h.1 hdepth)) base.reverse
              dsimp only
              rw [hdrop]
              exact hlast "" kept'
          | ordinary => exact hlast _ kept
      | cons next others =>
          rw [resolve, ← hrest]
          · cases hmeaning : meaning segment with
            | single =>
                rw [hmeaning] at h
                exact ih kept hdepth h
            | double =>
                rw [hmeaning] at h
                obtain ⟨kept', hdrop, hlength⟩ := dropLastSegment_append
                  (List.ne_nil_of_length_pos (Nat.lt_of_lt_of_le h.1 hdepth)) base.reverse
                dsimp only
                rw [hdrop]
                exact ih kept' (by omega) h.2
            | ordinary =>
                rw [hmeaning] at h
                exact ih (encodeSegment segment :: kept) (Nat.succ_le_succ hdepth) h
          · nofun

end Url.Path

end HmcClient
