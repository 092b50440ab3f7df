import HmcClient.Proofs.Text.Blank
import HmcClient.Proofs.Url.Authority
import HmcClient.Proofs.Url.PathChars
import Mathlib.Data.List.TakeWhile

/-!
# URLs that are read again

The text of a URL that was read can be read again. The parts are found where they were put, because
none of them contains the sign that ends it: what is read is either split at these signs or has them
encoded. For a URL of the web the parts are the same again (`Url.readWeb_again`). Files and other
URLs are only shown to be read, with the same query and fragment, for their paths may move: blanks
at the end of a path without structure are lost, and a path that starts with an empty segment gets a
dot segment before it.

What the reading of a text rests on is a list of facts about the URL's own parts (`Url.Readable`).
They hold of all URLs that are read (`Url.readable_of_parse`), and do not depend on what stands in
the query as long as it is encoded.
-/

namespace HmcClient

namespace Url

variable {idna : Idna}

/-! ## Signs and schemes -/

theorem splitAtSign_partChars {sign : Char} {cs : List Char} (h : ∀ c ∈ cs, c ≠ sign)
    (part : Option String) :
    splitAtSign sign (cs ++ partChars sign part) = (cs, part.map String.toList) := by
  have hpos : ∀ c ∈ cs, (c != sign) = true := fun c hc => bne_iff_ne.2 (h c hc)
  cases part with
  | none =>
      rw [partChars, List.append_nil, splitAtSign, List.dropWhile_eq_nil_iff.2 hpos]
      rfl
  | some text =>
      rw [partChars, splitAtSign, List.dropWhile_append_of_pos hpos,
        List.dropWhile_cons_of_neg (by simp), List.takeWhile_append_of_pos hpos,
        List.takeWhile_cons_of_neg (by simp), List.append_nil]
      rfl

/-- Whether a scheme is as it is kept: in lower case and starting with a letter. -/
structure SchemeText (scheme : String) : Prop where
  first : ∃ letter rest, scheme.toList = letter :: rest ∧ letter.isAlpha = true
  chars : ∀ c ∈ scheme.toList, isSchemeChar c = true ∧ Literal.lowerAscii c = c

theorem toNat_of_isSchemeChar {c : Char} (h : isSchemeChar c = true) : c.toNat < 128 := by
  simp only [isSchemeChar, Bool.or_eq_true, beq_iff_eq] at h
  rcases h with ((h | rfl) | rfl) | rfl
  · exact Form.toNat_of_isPlain (by rw [Form.isPlain, h]; rfl)
  all_goals decide

theorem isSchemeChar_plain {c : Char} (h : isSchemeChar c = true) :
    isSkipped c = false ∧ isPadding c = false := by
  have hchars : ∀ n < 128, isSchemeChar (Char.ofNat n) = true →
      isSkipped (Char.ofNat n) = false ∧ isPadding (Char.ofNat n) = false := by decide
  have hchar := hchars c.toNat (toNat_of_isSchemeChar h)
  rw [Char.ofNat_toNat] at hchar
  exact hchar h

theorem isSchemeChar_lowerAscii {c : Char} (h : isSchemeChar c = true) :
    isSchemeChar (Literal.lowerAscii c) = true ∧
      (c.isAlpha = true → (Literal.lowerAscii c).isAlpha = true) := by
  have hchars : ∀ n < 128, isSchemeChar (Char.ofNat n) = true →
      isSchemeChar (Literal.lowerAscii (Char.ofNat n)) = true ∧
        ((Char.ofNat n).isAlpha = true →
          (Literal.lowerAscii (Char.ofNat n)).isAlpha = true) := by decide
  have hchar := hchars c.toNat (toNat_of_isSchemeChar h)
  rw [Char.ofNat_toNat] at hchar
  exact hchar h

theorem skim_of_none {cs : List Char} (h : ∀ c ∈ cs, isSkipped c = false) : skim cs = cs :=
  List.filter_eq_self.2 fun c hc => by rw [h c hc]; rfl

theorem splitScheme?_again {scheme : String} (h : SchemeText scheme) (rest : List Char) :
    splitScheme? (scheme.toList ++ ':' :: rest) = some (scheme, rest) := by
  obtain ⟨letter, others, hscheme, hletter⟩ := h.first
  have hpos : ∀ c ∈ scheme.toList, (isSchemeChar c || isSkipped c) = true := fun c hc => by
    rw [(h.chars c hc).1]
    rfl
  have htake : (':' :: rest).takeWhile (fun c => isSchemeChar c || isSkipped c) = [] := rfl
  have hdrop : (':' :: rest).dropWhile (fun c => isSchemeChar c || isSkipped c) = ':' :: rest := rfl
  have hlower : scheme.toList.map Literal.lowerAscii = scheme.toList :=
    (List.map_congr_left fun c hc => (h.chars c hc).2).trans (List.map_id _)
  rw [splitScheme?, List.takeWhile_append_of_pos hpos, List.dropWhile_append_of_pos hpos,
    htake, hdrop, List.append_nil,
    skim_of_none fun c hc => (isSchemeChar_plain (h.chars c hc).1).1, hlower,
    String.ofList_toList, hscheme]
  exact if_pos hletter

theorem schemeText_of_splitScheme? {cs rest : List Char} {scheme : String}
    (h : splitScheme? cs = some (scheme, rest)) : SchemeText scheme := by
  have hchars : ∀ c ∈ skim (cs.takeWhile fun c => isSchemeChar c || isSkipped c),
      isSchemeChar c = true := by
    intro c hc
    obtain ⟨hc, hkept⟩ := List.mem_filter.1 hc
    have heither := List.mem_takeWhile_imp hc
    rw [Bool.not_eq_true'] at hkept
    rwa [hkept, Bool.or_false] at heither
  rw [splitScheme?] at h
  generalize skim (cs.takeWhile fun c => isSchemeChar c || isSkipped c) = text at h hchars
  split at h
  next first others rest' _ =>
    split at h
    next hletter =>
      obtain ⟨rfl, -⟩ := Prod.mk.inj (Option.some.inj h)
      constructor
      · exact ⟨_, _, String.toList_ofList,
          (isSchemeChar_lowerAscii (hchars first List.mem_cons_self)).2 hletter⟩
      · intro c hc
        rw [String.toList_ofList] at hc
        obtain ⟨d, hd, rfl⟩ := List.mem_map.1 hc
        exact ⟨(isSchemeChar_lowerAscii (hchars d hd)).1, Literal.lowerAscii_idem d⟩
    · cases h
  · cases h

/-! ## Reading after the scheme -/

/-- Reads what follows the scheme, up to the query. -/
def readRest (idna : Idna) (scheme : String) (cs : List Char)
    (query fragment : Option (List Char)) :
    Except Fault Url :=
  if scheme = "file" then readFile idna cs query fragment
  else if isWebScheme scheme then readWeb idna scheme (skim cs) query fragment
  else readOther idna scheme (skim cs) query fragment

/-- Whether the stricter set is encoded in the query of a scheme. -/
def hasWebQuery (scheme : String) : Bool := scheme == "file" || isWebScheme scheme

/-- What a URL says between its scheme and its query. -/
def middle (u : Url) : List Char := u.authorityChars ++ u.path.render

theorem parse_eq (s : String) : parse idna s =
    match splitScheme? (Blank.trimWhile isPadding s.toList) with
    | none => .error .relative
    | some (scheme, rest) =>
      readRest idna scheme (splitAtSign '?' (splitAtSign '#' rest).1).1
        ((splitAtSign '?' (splitAtSign '#' rest).1).2.map skim)
        ((splitAtSign '#' rest).2.map skim) := by
  rw [parse]
  cases splitScheme? (Blank.trimWhile isPadding s.toList) <;> rfl

/-- Whether a URL has been made with a query and a fragment. -/
def EndsIn (v : Url) (web : Bool) (query fragment : Option (List Char)) : Prop :=
  v.query = query.map (encodeQuery web) ∧ v.fragment = fragment.map encodeFragment

/-- The authority ends where the path starts. -/
theorem splitAuthority (web : Bool) {cs : List Char} (h : ∀ c ∈ cs, StaysInside c)
    (items : List String) :
    (cs ++ Path.segmentsText items).takeWhile (fun c => !endsAuthority web c) = cs ∧
      (cs ++ Path.segmentsText items).dropWhile (fun c => !endsAuthority web c) =
        Path.segmentsText items := by
  have hpos : ∀ c ∈ cs, (!endsAuthority web c) = true := by
    intro c hc
    have hinside := (h c hc).1
    cases web with
    | true => rw [hinside]; rfl
    | false =>
        simp only [endsAuthority, Path.isSeparator, Bool.or_eq_false_iff] at hinside
        simp [endsAuthority, Path.isSeparator, hinside.1.1.1, hinside.1.2, hinside.2]
  rw [List.takeWhile_append_of_pos hpos, List.dropWhile_append_of_pos hpos]
  cases items with
  | nil => exact ⟨List.append_nil cs, rfl⟩
  | cons s rest =>
      -- The first character of the path is the slash, which ends an authority.
      constructor
      · show cs ++ ('/' :: (s.toList ++ Path.segmentsText rest)).takeWhile _ = cs
        cases web <;> exact List.append_nil cs
      · show ('/' :: (s.toList ++ Path.segmentsText rest)).dropWhile _ = _
        cases web <;> rfl

/-! ### URLs of the web -/

theorem Authority.Written.render_ne_nil {scheme : String} (hweb : isWebScheme scheme = true)
    {a : Authority} (h : a.Written idna scheme) : a.render ≠ [] := by
  obtain ⟨user, host, port⟩ := a
  cases host with
  | none => exact absurd ((h.hostless rfl).1.symm.trans hweb) Bool.false_ne_true
  | some host =>
      intro hnil
      have hhost := (h.host host rfl).1.again
      rw [(List.append_eq_nil_iff.1 (List.append_eq_nil_iff.1 hnil).1).2, hweb] at hhost
      cases hhost

/-- A URL of the web is read again from what it says after its scheme. -/
theorem readWeb_again {scheme : String} (hweb : isWebScheme scheme = true) {a : Authority}
    (ha : a.Written idna scheme) {items : List String} (hne : items ≠ [])
    (hitems : ∀ s ∈ items, Path.Kept s) (query fragment : Option (List Char)) :
    readWeb idna scheme ('/' :: '/' :: a.render ++ Path.segmentsText items) query fragment =
      .ok (build scheme (some a) (.segments items) query fragment true) := by
  have hrest : ('/' :: '/' :: a.render ++ Path.segmentsText items).dropWhile
      (Path.isSeparator true) = a.render ++ Path.segmentsText items := by
    show (a.render ++ Path.segmentsText items).dropWhile (Path.isSeparator true) = _
    cases htext : a.render with
    | nil => exact absurd htext (ha.render_ne_nil hweb)
    | cons c cs =>
        have hinside := (ha.inside c (htext ▸ List.mem_cons_self)).1
        rw [endsAuthority, Bool.or_eq_false_iff, Bool.or_eq_false_iff] at hinside
        rw [List.cons_append]
        exact List.dropWhile_cons_of_neg (ne_true_of_eq_false hinside.1.1)
  obtain ⟨htake, hdrop⟩ := splitAuthority true ha.inside items
  rw [readWeb, hrest]
  dsimp only
  rw [htake, hdrop, Authority.ofText_again ha]
  show Except.ok (build scheme (some a) (.segments (Path.ofText true (Path.segmentsText items)))
    query fragment true) = _
  rw [Path.ofText_segmentsText hitems hne]

/-! ### Files -/

theorem afterTwoSlashes?_slashes (cs : List Char) : afterTwoSlashes? ('/' :: '/' :: cs) = some cs :=
  rfl

theorem endsIn_buildFile (host : Host) (text : List Char) (query fragment : Option (List Char)) :
    (buildFile host text query fragment).EndsIn true query fragment := ⟨rfl, rfl⟩

/-- The URL of a file can be read again from what it says after its scheme. -/
theorem readFile_again {host : Host} (hhost : host = .name "" ∨ host.Written idna true)
    (items : List String) (query fragment : Option (List Char)) :
    ∃ v, readFile idna ('/' :: '/' :: host.render ++ Path.segmentsText items) query fragment =
      .ok v ∧
      v.EndsIn true query fragment := by
  have hinside : ∀ c ∈ host.render, StaysInside c := by
    rcases hhost with rfl | hwritten
    · nofun
    · exact fun c hc => staysInside_of_isInner (hwritten.inner c hc)
  obtain ⟨htake, hdrop⟩ := splitAuthority true hinside items
  rw [readFile, List.cons_append, List.cons_append, afterTwoSlashes?_slashes]
  dsimp only
  rw [htake, hdrop, skim_of_none fun c hc => isSkipped_of_isPadding (hinside c hc).2]
  split
  · exact ⟨_, rfl, endsIn_buildFile _ _ _ _⟩
  rcases hhost with rfl | hwritten
  · exact ⟨_, rfl, endsIn_buildFile _ _ _ _⟩
  have hagain : Host.ofWebText idna host.render = .ok host := hwritten.again
  split
  · exact ⟨_, rfl, endsIn_buildFile _ _ _ _⟩
  rw [hagain]
  show ∃ v, (if host = .name "" ∨ host = .name "localhost" then _ else _) = _ ∧ _
  split
  · exact ⟨_, rfl, endsIn_buildFile _ _ _ _⟩
  · exact ⟨_, rfl, endsIn_buildFile _ _ _ _⟩

/-! ### Other URLs -/

/-- Whether a text starts as an authority does. -/
def startsAuthority : List Char → Bool
  | '/' :: '/' :: _ => true
  | _ => false

/-- A URL without an authority can be read from any text that starts none. -/
theorem readOther_alone {cs : List Char} (h : startsAuthority cs = false) (scheme : String)
    (query fragment : Option (List Char)) :
    ∃ v, readOther idna scheme cs query fragment = .ok v ∧ v.EndsIn false query fragment := by
  unfold readOther
  split
  · cases h
  · exact ⟨_, rfl, rfl, rfl⟩
  · exact ⟨_, rfl, rfl, rfl⟩

/-- A URL outside of the web can be read again from what it says after its scheme. -/
theorem readOther_again {scheme : String} {a : Authority} (ha : a.Written idna scheme)
    (items : List String) (query fragment : Option (List Char)) :
    ∃ v, readOther idna scheme ('/' :: '/' :: a.render ++ Path.segmentsText items) query fragment =
      .ok v ∧ v.EndsIn false query fragment := by
  obtain ⟨htake, hdrop⟩ := splitAuthority false ha.inside items
  rw [List.cons_append, List.cons_append, readOther, htake, hdrop, Authority.ofText_again ha]
  exact ⟨_, rfl, rfl, rfl⟩

/-! ## URLs that can be read -/

/-- User, host and port of a URL. -/
def authority (u : Url) : Authority := ⟨⟨u.username, u.password⟩, u.host, u.port⟩

/-- What authority and path look like in URLs that are read. -/
inductive Shape (idna : Idna) (u : Url) : Prop where
  | web (hweb : u.isWeb = true) (ha : u.authority.Written idna u.scheme) {items : List String}
      (hpath : u.path = .segments items) (hne : items ≠ []) (hitems : ∀ s ∈ items, Path.Kept s)
  | file (hscheme : u.scheme = "file") {host : Host}
      (ha : u.authority = ⟨⟨"", none⟩, some host, none⟩)
      (hhost : host = .name "" ∨ host.Written idna true) {items : List String}
      (hpath : u.path = .segments items) (hitems : ∀ s ∈ items, PathChars s.toList)
  | other (hother : hasWebQuery u.scheme = false) {a : Authority} (ha : a.Written idna u.scheme)
      (hauthority : u.authority = { a with host := some (a.host.getD (.name "")) })
      {items : List String} (hpath : u.path = .segments items)
      (hitems : ∀ s ∈ items, PathChars s.toList)
  | alone (hother : hasWebQuery u.scheme = false) (hhost : u.host = none) {items : List String}
      (hpath : u.path = .segments items)
      (hitems : ∀ s ∈ items, PathChars s.toList ∧ ∀ c ∈ s.toList, c ≠ '/')
  | verbatim (hother : hasWebQuery u.scheme = false) (hhost : u.host = none) {text : String}
      (hpath : u.path = .verbatim text) (hstart : startsAuthority text.toList = false)
      (hchars : ∀ c ∈ text.toList, isSkipped c = false ∧ c ≠ '?' ∧ c ≠ '#')

/-- Whether a URL can be read from its text: its scheme, authority and path look like those that are
read, and nothing in query and fragment has to be encoded. -/
structure Readable (idna : Idna) (u : Url) : Prop where
  scheme : SchemeText u.scheme
  shape : u.Shape idna
  query : ∀ q ∈ u.query, ∀ c ∈ q.toList,
    (if hasWebQuery u.scheme then Percent.inWebQuery else Percent.inQuery) c = false
  fragment : ∀ f ∈ u.fragment, ∀ c ∈ f.toList, Percent.inFragment c = false

theorem isPadding_of_not_inFragment {c : Char} (h : Percent.inFragment c = false) :
    isPadding c = false := by
  refine isPadding_of_not_isControl (Bool.or_eq_false_iff.1 h).1 ?_
  rintro rfl
  exact absurd h (by decide)

theorem silent_of_not_inPath {c : Char} (h : Percent.inPath c = false) : Silent c := by
  have hne (d : Char) (hd : Percent.inPath d = true) : c ≠ d := by
    rintro rfl
    exact Bool.noConfusion (h.symm.trans hd)
  exact ⟨isPadding_of_not_inFragment (Bool.or_eq_false_iff.1 h).1, hne _ (by decide),
    hne _ (by decide)⟩

theorem silent_segmentsText {items : List String} (h : ∀ s ∈ items, PathChars s.toList) :
    ∀ c ∈ Path.segmentsText items, Silent c := by
  intro c hc
  obtain ⟨s, hs, hc⟩ := List.mem_flatMap.1 hc
  rcases List.mem_cons.1 hc with rfl | hc
  · unfold Silent
    decide
  · exact silent_of_not_inPath (h s hs c hc)

theorem authorityChars_of_host {u : Url} {host : Host} (h : u.host = some host) :
    u.authorityChars = '/' :: '/' :: u.authority.render := by
  rw [authorityChars, h, authority, h]
  show '/' :: '/' :: u.userInfoChars ++ host.render ++ u.portChars = _
  rw [List.cons_append, List.cons_append, List.cons_append, List.cons_append]
  rfl

/-- What is put before a path without a host keeps it from being read as one. -/
theorem authorityChars_alone {u : Url} (hhost : u.host = none) :
    u.authorityChars = [] ∨ u.authorityChars = ['/', '.'] := by
  rw [authorityChars, hhost]
  dsimp only
  split
  · exact .inr rfl
  · exact .inl rfl

theorem startsAuthority_alone {u : Url} (hhost : u.host = none) {items : List String}
    (hpath : u.path = .segments items) (hitems : ∀ s ∈ items, ∀ c ∈ s.toList, c ≠ '/') :
    startsAuthority u.middle = false := by
  rw [middle, authorityChars, hhost, hpath]
  cases items with
  | nil => rfl
  | cons s rest =>
      cases hs : s.toList with
      | nil =>
          obtain rfl := toList_eq_nil.1 hs
          cases rest with
          | nil => rfl
          | cons t rest => rfl
      | cons c cs =>
          have hslash : c ≠ '/' := hitems s List.mem_cons_self c (hs ▸ List.mem_cons_self)
          have hempty : s ≠ "" := fun h => List.cons_ne_nil c cs (hs.symm.trans (toList_eq_nil.2 h))
          dsimp only
          split
          next heq => exact absurd (List.cons.inj (Path.segments.inj heq)).1 hempty
          show startsAuthority ('/' :: (s.toList ++ Path.segmentsText rest)) = false
          rw [hs]
          show startsAuthority ('/' :: c :: (cs ++ Path.segmentsText rest)) = false
          unfold startsAuthority
          split
          next heq => exact absurd (List.cons.inj (List.cons.inj heq).2).1 hslash
          · rfl

/-- A hostless authority says nothing, and neither does an empty name. -/
theorem Authority.Written.render_eq {scheme : String} {a : Authority} (h : a.Written idna scheme) :
    { a with host := some (a.host.getD (.name "")) }.render = a.render := by
  obtain ⟨user, host, port⟩ := a
  cases host with
  | some host => rfl
  | none =>
      obtain ⟨-, huser, hport⟩ := h.hostless rfl
      dsimp only at huser hport
      rw [UserInfo.eq_of_isNone huser, hport]
      rfl

theorem fileAuthority_render (host : Host) :
    Authority.render ⟨⟨"", none⟩, some host, none⟩ = host.render := List.append_nil _

theorem silent_middle {u : Url} {items : List String} (hpath : u.path = .segments items)
    (hauthority : ∀ c ∈ u.authorityChars, Silent c) (hitems : ∀ s ∈ items, PathChars s.toList) :
    ∀ c ∈ u.middle, Silent c := by
  intro c hc
  rw [middle, hpath] at hc
  exact (List.mem_append.1 hc).elim (hauthority c) (silent_segmentsText hitems c)

theorem silent_authorityChars {u : Url} {host : Host} (hhost : u.host = some host)
    (hrender : ∀ c ∈ u.authority.render, StaysInside c) : ∀ c ∈ u.authorityChars, Silent c := by
  have hslash : Silent '/' := by unfold Silent; decide
  intro c hc
  rw [authorityChars_of_host hhost] at hc
  rcases List.mem_cons.1 hc with rfl | hc
  · exact hslash
  rcases List.mem_cons.1 hc with rfl | hc
  · exact hslash
  · exact silent_of_staysInside (hrender c hc)

theorem host_eq {u : Url} {a : Authority} (h : u.authority = a) : u.host = a.host :=
  congrArg Authority.host h

/-- Nothing between scheme and query has a meaning for where they end, unless the path is without
structure. -/
theorem Shape.silent {u : Url} (h : u.Shape idna) (hsegments : u.isVerbatim = false) :
    ∀ c ∈ u.middle, Silent c := by
  cases h with
  | web hweb ha hpath hne hitems =>
      refine silent_middle hpath ?_ fun s hs => (hitems s hs).encoded
      cases hhost : u.host with
      | none => exact absurd ((ha.hostless hhost).1.symm.trans hweb) Bool.false_ne_true
      | some host => exact silent_authorityChars hhost ha.inside
  | file hscheme ha hhost hpath hitems =>
      refine silent_middle hpath (silent_authorityChars (host_eq ha) ?_) hitems
      rw [ha, fileAuthority_render]
      rcases hhost with rfl | hwritten
      · nofun
      · exact fun c hc => staysInside_of_isInner (hwritten.inner c hc)
  | other hother ha hauthority hpath hitems =>
      refine silent_middle hpath (silent_authorityChars (host_eq hauthority) ?_) hitems
      rw [hauthority, ha.render_eq]
      exact ha.inside
  | alone hother hhost hpath hitems =>
      refine silent_middle hpath ?_ fun s hs => (hitems s hs).1
      have hslash : Silent '/' := by unfold Silent; decide
      have hdot : Silent '.' := by unfold Silent; decide
      rcases authorityChars_alone hhost with hchars | hchars
      · rw [hchars]
        nofun
      · rw [hchars]
        exact List.forall_mem_cons.2 ⟨hslash, List.forall_mem_singleton.2 hdot⟩
  | verbatim hother hhost hpath hstart hchars =>
      rw [isVerbatim, hpath] at hsegments
      cases hsegments

theorem middle_verbatim {u : Url} {text : String} (hhost : u.host = none)
    (hpath : u.path = .verbatim text) : u.middle = text.toList := by
  rw [middle, authorityChars, hhost, hpath]
  rfl

/-- Nothing before the query starts query or fragment. -/
theorem Shape.chars {u : Url} (h : u.Shape idna) :
    ∀ c ∈ u.middle, isSkipped c = false ∧ c ≠ '?' ∧ c ≠ '#' := by
  cases hverbatim : u.isVerbatim with
  | false => exact fun c hc => ⟨isSkipped_of_isPadding (h.silent hverbatim c hc).1,
      (h.silent hverbatim c hc).2⟩
  | true =>
      cases h with
      | verbatim hother hhost hpath hstart hchars => exact middle_verbatim hhost hpath ▸ hchars
      | web hweb ha hpath hne hitems => simp [isVerbatim, hpath] at hverbatim
      | file hscheme ha hhost hpath hitems => simp [isVerbatim, hpath] at hverbatim
      | other hother ha hauthority hpath hitems => simp [isVerbatim, hpath] at hverbatim
      | alone hother hhost hpath hitems => simp [isVerbatim, hpath] at hverbatim

theorem dropEndWhile_silent {cs : List Char} (h : ∀ c ∈ cs, Silent c) :
    Blank.dropEndWhile isPadding cs = cs := Blank.dropEndWhile_of_none fun c hc => (h c hc).1

theorem startsAuthority_of_prefix {cs ds : List Char} (h : cs <+: ds)
    (hds : startsAuthority ds = false) : startsAuthority cs = false := by
  obtain ⟨rest, rfl⟩ := h
  unfold startsAuthority at hds ⊢
  split
  · cases hds
  · rfl

theorem readRest_other {scheme : String} (h : hasWebQuery scheme = false) {cs : List Char}
    (hcs : ∀ c ∈ cs, isSkipped c = false) (query fragment : Option (List Char)) :
    readRest idna scheme cs query fragment = readOther idna scheme cs query fragment := by
  rw [hasWebQuery, Bool.or_eq_false_iff] at h
  rw [readRest, if_neg (beq_eq_false_iff_ne.1 h.1), h.2, skim_of_none hcs]
  rfl

/-- What stands between scheme and query is read again, with and without the blanks at its end. -/
theorem Shape.reads {u : Url} (h : u.Shape idna) {cs : List Char}
    (hcs : cs = u.middle ∨ cs = Blank.dropEndWhile isPadding u.middle)
    (query fragment : Option (List Char)) :
    ∃ v, readRest idna u.scheme cs query fragment = .ok v ∧
      v.EndsIn (hasWebQuery u.scheme) query fragment := by
  have hwhole (hsegments : u.isVerbatim = false) : cs = u.middle :=
    hcs.elim id fun heq => heq.trans (dropEndWhile_silent (h.silent hsegments))
  have hskipped : ∀ c ∈ cs, isSkipped c = false := by
    intro c hc
    rcases hcs with rfl | rfl
    · exact (h.chars c hc).1
    · exact (h.chars c ((Blank.dropEndWhile_prefix _).subset hc)).1
  have hverbatim {items : List String} (hpath : u.path = .segments items) :
      u.isVerbatim = false := by
    rw [isVerbatim, hpath]
  have hslashes {host : Host} {items : List String} (hhost : u.host = some host)
      (hpath : u.path = .segments items) :
      cs = '/' :: '/' :: u.authority.render ++ Path.segmentsText items := by
    rw [hwhole (hverbatim hpath), middle, authorityChars_of_host hhost, hpath]
    rfl
  cases h with
  | web hweb ha hpath hne hitems =>
      cases hhost : u.host with
      | none => exact absurd ((ha.hostless hhost).1.symm.trans hweb) Bool.false_ne_true
      | some host =>
          have hscheme : u.scheme ≠ "file" := by
            intro heq
            rw [isWeb, heq] at hweb
            exact absurd hweb (by decide)
          have hweb' : isWebScheme u.scheme = true := hweb
          rw [readRest, if_neg hscheme, if_pos hweb', skim_of_none hskipped, hslashes hhost hpath,
            readWeb_again hweb' ha hne hitems]
          refine ⟨_, rfl, ?_⟩
          rw [hasWebQuery, hweb', Bool.or_true]
          exact ⟨rfl, rfl⟩
  | file hscheme ha hhost hpath hitems =>
      rw [hslashes (host_eq ha) hpath, ha, fileAuthority_render, readRest, if_pos hscheme]
      have hweb : hasWebQuery u.scheme = true := by
        rw [hscheme]
        decide
      rw [hweb]
      exact readFile_again hhost _ query fragment
  | other hother ha hauthority hpath hitems =>
      rw [readRest_other hother hskipped, hother, hslashes (host_eq hauthority) hpath, hauthority,
        ha.render_eq]
      exact readOther_again ha _ query fragment
  | alone hother hhost hpath hitems =>
      rw [readRest_other hother hskipped, hother, hwhole (hverbatim hpath)]
      exact readOther_alone (startsAuthority_alone hhost hpath fun s hs => (hitems s hs).2) _ _ _
  | verbatim hother hhost hpath hstart hchars =>
      rw [readRest_other hother hskipped, hother]
      refine readOther_alone ?_ _ _ _
      have hmiddle := middle_verbatim hhost hpath
      rcases hcs with rfl | rfl
      · rwa [hmiddle]
      · rw [hmiddle]
        exact startsAuthority_of_prefix (Blank.dropEndWhile_prefix _) hstart

/-- The end of a text is not trimmed if it is a query or a fragment that is kept. -/
theorem dropEndWhile_partChars (cs : List Char) {sign : Char} (hsign : isPadding sign = false)
    {part : Option String} (hpart : ∀ p ∈ part, ∀ c ∈ p.toList, isPadding c = false) :
    ∃ ds, (ds = cs ∨ ds = Blank.dropEndWhile isPadding cs) ∧
      Blank.dropEndWhile isPadding (cs ++ partChars sign part) = ds ++ partChars sign part := by
  cases part with
  | none => exact ⟨_, .inr rfl, by rw [partChars, List.append_nil, List.append_nil]⟩
  | some text =>
      refine ⟨cs, .inl rfl, ?_⟩
      rw [partChars, Blank.dropEndWhile_append_cons _ _ hsign,
        Blank.dropEndWhile_of_none (hpart text rfl)]

theorem isPadding_of_queryChar {web : Bool} {c : Char}
    (h : (if web then Percent.inWebQuery else Percent.inQuery) c = false) :
    isPadding c = false ∧ c ≠ '#' := by
  have hquery : Percent.inQuery c = false := by
    cases web with
    | true => exact (Bool.or_eq_false_iff.1 h).1
    | false => exact h
  have hne (d : Char) (hd : Percent.inQuery d = true) : c ≠ d := by
    rintro rfl
    exact Bool.noConfusion (hquery.symm.trans hd)
  exact ⟨isPadding_of_not_isControl (Bool.or_eq_false_iff.1 hquery).1 (hne _ (by decide)),
    hne _ (by decide)⟩

theorem SchemeText.trim {scheme : String} (h : SchemeText scheme) (rest : List Char) :
    Blank.trimWhile isPadding (scheme.toList ++ ':' :: rest) =
      scheme.toList ++ ':' :: Blank.dropEndWhile isPadding rest := by
  obtain ⟨letter, others, hscheme, -⟩ := h.first
  have hletter := (isSchemeChar_plain (h.chars letter (hscheme ▸ List.mem_cons_self)).1).2
  rw [Blank.trimWhile, hscheme, List.cons_append, List.dropWhile_cons_of_neg (by simp [hletter]),
    ← List.cons_append, Blank.dropEndWhile_append_cons _ _ (by decide)]

/-- The text of a readable URL is read, with the same query and the same fragment. -/
theorem Readable.parse_render {u : Url} (h : u.Readable idna) :
    ∃ v, parse idna u.render = .ok v ∧ v.query = u.query ∧ v.fragment = u.fragment := by
  have hquery {q : String} (hq : q ∈ u.query) {c : Char} (hc : c ∈ q.toList) :=
    isPadding_of_queryChar (h.query q hq c hc)
  have hfragment {f : String} (hf : f ∈ u.fragment) {c : Char} (hc : c ∈ f.toList) :=
    isPadding_of_not_inFragment (h.fragment f hf c hc)
  -- Trimming the end takes at most blanks of the path.
  have hfragmentSign : isPadding '#' = false := by decide
  obtain ⟨front, hfront, htrim⟩ := dropEndWhile_partChars (u.middle ++ partChars '?' u.query)
    hfragmentSign fun f hf c hc => hfragment hf hc
  obtain ⟨cs, hcs, htrim'⟩ : ∃ cs, (cs = u.middle ∨ cs = Blank.dropEndWhile isPadding u.middle) ∧
      front = cs ++ partChars '?' u.query := by
    rcases hfront with rfl | rfl
    · exact ⟨_, .inl rfl, rfl⟩
    · exact dropEndWhile_partChars _ (by decide) fun q hq c hc => (hquery hq hc).1
  have hchars : ∀ c ∈ cs, isSkipped c = false ∧ c ≠ '?' ∧ c ≠ '#' := by
    intro c hc
    rcases hcs with rfl | rfl
    · exact h.shape.chars c hc
    · exact h.shape.chars c ((Blank.dropEndWhile_prefix _).subset hc)
  have hsign : ∀ c ∈ cs ++ partChars '?' u.query, c ≠ '#' := by
    intro c hc
    rcases List.mem_append.1 hc with hc | hc
    · exact (hchars c hc).2.2
    · cases hq : u.query with
      | none => simp [partChars, hq] at hc
      | some q =>
          rw [hq] at hc
          rcases List.mem_cons.1 hc with rfl | hc
          · decide
          · exact (hquery hq hc).2
  have hscheme : splitScheme? (Blank.trimWhile isPadding u.render.toList) =
      some (u.scheme, cs ++ partChars '?' u.query ++ partChars '#' u.fragment) := by
    rw [render, String.toList_ofList, renderChars, h.scheme.trim]
    show splitScheme? (u.scheme.toList ++ ':' :: Blank.dropEndWhile isPadding
      (u.middle ++ partChars '?' u.query ++ partChars '#' u.fragment)) = _
    rw [htrim, splitScheme?_again h.scheme, htrim']
  have hskim {part : Option String}
      (hpart : ∀ p ∈ part, ∀ c ∈ p.toList, isPadding c = false) :
      (part.map String.toList).map skim = part.map String.toList := by
    cases part with
    | none => rfl
    | some p => exact congrArg some (skim_of_none fun c hc =>
        isSkipped_of_isPadding (hpart p rfl c hc))
  obtain ⟨v, hv, hends⟩ := h.shape.reads hcs (u.query.map String.toList)
    (u.fragment.map String.toList)
  refine ⟨v, ?_, hends.1.trans ?_, hends.2.trans ?_⟩
  · rw [parse_eq, hscheme]
    dsimp only
    rw [splitAtSign_partChars hsign, splitAtSign_partChars fun c hc => (hchars c hc).2.1]
    dsimp only
    rw [hskim fun q hq c hc => (hquery hq hc).1, hskim fun f hf c hc => hfragment hf hc, hv]
  · cases hq : u.query with
    | none => rfl
    | some q =>
        show some (String.ofList (Percent.encode _ q.toList)) = some q
        rw [Percent.encode_of_none (h.query q hq), String.ofList_toList]
  · cases hf : u.fragment with
    | none => rfl
    | some f =>
        show some (String.ofList (Percent.encode _ f.toList)) = some f
        rw [Percent.encode_of_none (h.fragment f hf), String.ofList_toList]

/-! ## What is read can be read -/

theorem resolve_ne_nil (kept : List String) {segments : List (List Char)} (hne : segments ≠ []) :
    Path.resolve kept segments ≠ [] := by
  fun_induction Path.resolve kept segments with
  | case1 kept => exact absurd rfl hne
  | case2 kept last => exact fun h => List.cons_ne_nil _ _ (List.reverse_eq_nil_iff.1 h)
  | case3 kept last => exact fun h => List.cons_ne_nil _ _ (List.reverse_eq_nil_iff.1 h)
  | case4 kept last => exact fun h => List.cons_ne_nil _ _ (List.reverse_eq_nil_iff.1 h)
  | case5 kept segment rest hrest _ ih => exact ih hrest
  | case6 kept segment rest hrest _ ih => exact ih hrest
  | case7 kept segment rest hrest _ ih => exact ih hrest

theorem ofText_ne_nil (cs : List Char) : Path.ofText true cs ≠ [] :=
  resolve_ne_nil [] (Host.splitOn_ne_nil _ _)

/-- What is read after a scheme: a URL of that scheme with the shape of those that are read. -/
structure Made (idna : Idna) (u : Url) (scheme : String) (query fragment : Option (List Char)) :
    Prop where
  sameScheme : u.scheme = scheme
  shape : u.Shape idna
  ends : u.EndsIn (hasWebQuery scheme) query fragment

theorem made_of_readWeb {scheme : String} (hweb : isWebScheme scheme = true) {cs : List Char}
    {query fragment : Option (List Char)} {u : Url}
    (h : readWeb idna scheme cs query fragment = .ok u) : u.Made idna scheme query fragment := by
  obtain ⟨⟨a, rest⟩, ha, h⟩ := bind_eq_ok.1 h
  obtain rfl := Except.ok.inj h
  refine ⟨rfl, .web hweb (Authority.written_of_ofText ha) rfl (ofText_ne_nil _)
    (Path.kept_of_ofText _), ?_⟩
  rw [hasWebQuery, hweb, Bool.or_true]
  exact ⟨rfl, rfl⟩

theorem made_buildFile {host : Host} (hhost : host = .name "" ∨ host.Written idna true)
    (text : List Char) (query fragment : Option (List Char)) :
    (buildFile host text query fragment).Made idna "file" query fragment := by
  have hauthority : (buildFile host text query fragment).authority =
      ⟨⟨"", none⟩, some (if (FilePath.ofText text).onDrive then .name "" else host), none⟩ := rfl
  refine ⟨rfl, .file rfl hauthority ?_ rfl (FilePath.ofText_plain text).2, endsIn_buildFile _ _ _ _⟩
  split
  · exact .inl rfl
  · exact hhost

theorem made_of_readFile {cs : List Char} {query fragment : Option (List Char)} {u : Url}
    (h : readFile idna cs query fragment = .ok u) : u.Made idna "file" query fragment := by
  have hnone (text : List Char) : (buildFile (.name "") text query fragment).Made idna "file"
      query fragment := made_buildFile (.inl rfl) text query fragment
  have hnamed {host : Host} (hhost : host = .name "" ∨ host.Written idna true) {path : List Char}
      (h : (if host = .name "" ∨ host = .name "localhost" then
        .ok (buildFile (.name "") path query fragment)
        else Except.ok (buildFile host (Path.dropLeading true path) query fragment)) =
          (.ok u : Except Fault Url)) : u.Made idna "file" query fragment := by
    split at h
    · exact Except.ok.inj h ▸ hnone _
    · exact Except.ok.inj h ▸ made_buildFile hhost _ _ _
  rw [readFile] at h
  split at h
  · exact Except.ok.inj h ▸ hnone _
  · dsimp only at h
    split at h
    · exact Except.ok.inj h ▸ hnone _
    split at h
    · exact hnamed (.inl rfl) h
    · obtain ⟨host, hhost, h⟩ := bind_eq_ok.1 h
      exact hnamed (.inr (Host.written_of_ofWebText hhost).1) h

theorem made_of_readOther {scheme : String} (hother : hasWebQuery scheme = false) {cs : List Char}
    (hcs : ∀ c ∈ cs, isSkipped c = false ∧ c ≠ '?' ∧ c ≠ '#') {query fragment : Option (List Char)}
    {u : Url} (h : readOther idna scheme cs query fragment = .ok u) :
    u.Made idna scheme query fragment := by
  have hends (a : Option Authority) (path : Path) :
      (build scheme a path query fragment false).EndsIn (hasWebQuery scheme) query fragment := by
    rw [hother]
    exact ⟨rfl, rfl⟩
  unfold readOther at h
  split at h
  · obtain ⟨⟨a, rest⟩, ha, h⟩ := bind_eq_ok.1 h
    obtain rfl := Except.ok.inj h
    exact ⟨rfl, .other hother (Authority.written_of_ofText ha) rfl rfl
      fun s hs => (mem_ofText hs).1, hends _ _⟩
  · obtain rfl := Except.ok.inj h
    exact ⟨rfl, .alone hother rfl rfl fun s hs => mem_ofText hs, hends _ _⟩
  next hslashes hslash =>
    obtain rfl := Except.ok.inj h
    refine ⟨rfl, .verbatim hother rfl rfl ?_ ?_, hends _ _⟩
    · rw [String.toList_ofList]
      unfold startsAuthority
      split
      next rest heq =>
        -- An encoded text starts with a slash only if the text itself does.
        obtain ⟨rest, hrest, -⟩ := Percent.eq_of_encode_eq_cons heq (by decide)
        exact absurd hrest (hslash rest)
      · rfl
    · rw [String.toList_ofList]
      intro c hc
      rcases Percent.mem_encode hc with ⟨hc, -⟩ | hc
      · exact hcs c hc
      · exact Percent.of_isEscapeChar (P := fun c => isSkipped c = false ∧ c ≠ '?' ∧ c ≠ '#')
          (by decide) (by decide) hc

theorem mem_splitAtSign {sign c : Char} {cs : List Char} (h : c ∈ (splitAtSign sign cs).1) :
    c ∈ cs ∧ c ≠ sign := by
  rw [splitAtSign] at h
  split at h
  next hnone => exact ⟨h, bne_iff_ne.1 (List.dropWhile_eq_nil_iff.1 hnone c h)⟩
  · have hne : (c != sign) = true := List.mem_takeWhile_imp (p := (· != sign)) h
    exact ⟨(List.takeWhile_sublist _).mem h, bne_iff_ne.1 hne⟩

theorem made_of_readRest {scheme : String} {cs : List Char} (hcs : ∀ c ∈ cs, c ≠ '?' ∧ c ≠ '#')
    {query fragment : Option (List Char)} {u : Url}
    (h : readRest idna scheme cs query fragment = .ok u) : u.Made idna scheme query fragment := by
  rw [readRest] at h
  split at h
  next hfile => exact hfile ▸ made_of_readFile h
  next hfile =>
    split at h
    next hweb => exact made_of_readWeb hweb h
    next hweb =>
      refine made_of_readOther ?_ (fun c hc => ?_) h
      · rw [hasWebQuery, Bool.eq_false_iff.2 hweb, beq_false_of_ne hfile]
        rfl
      · obtain ⟨hc, hkept⟩ := List.mem_filter.1 hc
        rw [Bool.not_eq_true'] at hkept
        exact ⟨hkept, hcs c hc⟩

/-- A URL that was read can be read again. -/
theorem readable_of_parse {s : String} {u : Url} (h : parse idna s = .ok u) : u.Readable idna := by
  rw [parse_eq] at h
  split at h
  · cases h
  next scheme rest hscheme =>
    have hmade := made_of_readRest
      (fun c hc => ⟨(mem_splitAtSign hc).2, (mem_splitAtSign (mem_splitAtSign hc).1).2⟩) h
    obtain ⟨rfl, hshape, hquery, hfragment⟩ := hmade
    refine ⟨schemeText_of_splitScheme? hscheme, hshape, fun q hq => ?_, fun f hf => ?_⟩
    · obtain ⟨text, -, rfl⟩ := Option.map_eq_some_iff.1 (hquery.symm.trans hq)
      rw [encodeQuery, String.toList_ofList]
      refine Percent.encode_encoded (fun hc => ?_) text
      exact Percent.of_isEscapeChar
        (P := fun c => (if hasWebQuery u.scheme then Percent.inWebQuery else Percent.inQuery) c =
          false) (by split <;> decide) (by split <;> decide) hc
    · obtain ⟨text, -, rfl⟩ := Option.map_eq_some_iff.1 (hfragment.symm.trans hf)
      rw [encodeFragment, String.toList_ofList]
      exact Percent.encode_encoded (Percent.of_isEscapeChar
        (P := fun c => Percent.inFragment c = false) (by decide) (by decide)) text

end Url

end HmcClient
