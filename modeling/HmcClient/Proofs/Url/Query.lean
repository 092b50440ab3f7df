import HmcClient.Proofs.Exchange.Endpoint
import HmcClient.Proofs.Url.Form
import HmcClient.Proofs.Url.Parse

/-!
# Filters in the query of a URL

Pairs are appended to whatever query a URL has. What joins them to it is an ampersand, which ends
the pair before it even if that was ended already, and pairs are read between ampersands. So the
pairs of the new query are those of the old one and the new ones after them. They are still so when
the URL has been written and read, because form encoding writes no character that a query would
have to encode.

The URLs of a program are those that it has read, endpoints and their resources, and any of these
with filters (`Url.Known`). Each of them can be read again from its text.
-/

namespace HmcClient

namespace Url

variable {idna : Idna}

/-! ## Queries -/

theorem queryPairs_eq (u : Url) : u.queryPairs = Form.pairsOf (u.query.getD "").toList := by
  rw [queryPairs]
  cases u.query <;> rfl

/-- What a query is after pairs were appended to it. -/
def joined (query : Option String) (pairs : List (String × String)) : List Char :=
  (query.getD "").toList ++ (if (query.getD "").toList.isEmpty then [] else ['&']) ++
    Form.encodePairs pairs

theorem appendQuery_of_nil {pairs : List (String × String)}
    (h : pairs.filter (!·.2.isEmpty) = []) (u : Url) : u.appendQuery pairs = u := by
  rw [appendQuery, h]

theorem appendQuery_of_ne_nil {pairs : List (String × String)}
    (h : pairs.filter (!·.2.isEmpty) ≠ []) (u : Url) :
    u.appendQuery pairs =
      { u with query := some (String.ofList (joined u.query (pairs.filter (!·.2.isEmpty)))) } := by
  rw [appendQuery]
  split
  next hnil => exact absurd hnil h
  · rfl

theorem pairsOf_joined (query : Option String) (pairs : List (String × String)) :
    Form.pairsOf (joined query pairs) = Form.pairsOf (query.getD "").toList ++ pairs := by
  rw [joined]
  split
  next hempty =>
    rw [List.isEmpty_iff.1 hempty, List.append_nil, List.nil_append, Form.pairsOf_encodePairs]
    rfl
  · rw [List.append_assoc, List.singleton_append, Form.pairsOf_append, Form.pairsOf_encodePairs]

theorem queryPairs_appendQuery (u : Url) (pairs : List (String × String)) :
    (u.appendQuery pairs).queryPairs = u.queryPairs ++ pairs.filter (!·.2.isEmpty) := by
  by_cases h : pairs.filter (!·.2.isEmpty) = []
  · rw [appendQuery_of_nil h, h, List.append_nil]
  · rw [appendQuery_of_ne_nil h, queryPairs_eq, queryPairs_eq]
    show Form.pairsOf (String.ofList _).toList = _
    rw [String.toList_ofList, pairsOf_joined]

/-- Pairs that are appended make the text of a URL longer. -/
theorem length_appendQuery {pairs : List (String × String)}
    (h : pairs.filter (!·.2.isEmpty) ≠ []) (u : Url) :
    u.renderChars.length < (u.appendQuery pairs).renderChars.length := by
  have hpart : (partChars '?' u.query).length <
      (partChars '?' (some (String.ofList
        (joined u.query (pairs.filter (!·.2.isEmpty)))))).length := by
    have hpairs := List.length_pos_iff.2 (Form.encodePairs_ne_nil h)
    rw [partChars, String.toList_ofList, joined]
    cases u.query with
    | none =>
        rw [partChars]
        exact Nat.succ_pos _
    | some query =>
        rw [partChars, List.length_cons, List.length_cons, List.length_append, List.length_append,
          Option.getD_some]
        omega
  rw [appendQuery_of_ne_nil h, renderChars, renderChars]
  show _ < (u.scheme.toList ++ ':' :: (u.authorityChars ++ u.path.render ++ _ ++ _)).length
  simp only [List.length_append, List.length_cons]
  omega

/-! ## URLs that can be read -/

theorem not_inWebQuery_of_isPlain {c : Char} (h : Form.isPlain c = true) :
    Percent.inWebQuery c = false := by
  have hchars : ∀ n < 128, Form.isPlain (Char.ofNat n) = true →
      Percent.inWebQuery (Char.ofNat n) = false := by decide
  have hchar := hchars c.toNat (Form.toNat_of_isPlain h)
  rw [Char.ofNat_toNat] at hchar
  exact hchar h

theorem Shape.withEnds {u : Url} (h : u.Shape idna) (query fragment : Option String) :
    { u with query := query, fragment := fragment }.Shape idna := by
  cases h with
  | web hweb ha hpath hne hitems => exact .web hweb ha hpath hne hitems
  | file hscheme ha hhost hpath hitems => exact .file hscheme ha hhost hpath hitems
  | other hother ha hauthority hpath hitems => exact .other hother ha hauthority hpath hitems
  | alone hother hhost hpath hitems => exact .alone hother hhost hpath hitems
  | verbatim hother hhost hpath hstart hchars =>
      exact .verbatim hother hhost hpath hstart hchars

/-- A URL can still be read when pairs have been appended. -/
theorem Readable.appendQuery {u : Url} (h : u.Readable idna) (pairs : List (String × String)) :
    (u.appendQuery pairs).Readable idna := by
  by_cases hnil : pairs.filter (!·.2.isEmpty) = []
  · rwa [appendQuery_of_nil hnil]
  rw [appendQuery_of_ne_nil hnil]
  have hset {c : Char} (hc : Percent.inWebQuery c = false) :
      (if hasWebQuery u.scheme then Percent.inWebQuery else Percent.inQuery) c = false := by
    split
    · exact hc
    · exact (Bool.or_eq_false_iff.1 hc).1
  refine ⟨h.scheme, h.shape.withEnds _ u.fragment, fun q hq c hc => ?_, h.fragment⟩
  obtain rfl := Option.some.inj hq
  rw [String.toList_ofList, joined] at hc
  rcases List.mem_append.1 hc with hc | hc
  · rcases List.mem_append.1 hc with hc | hc
    · cases hquery : u.query with
      | none =>
          rw [hquery] at hc
          cases hc
      | some old =>
          rw [hquery] at hc
          exact h.query old hquery c hc
    · split at hc
      · cases hc
      · exact hset (List.mem_singleton.1 hc ▸ by decide)
  · refine hset ?_
    rcases Form.mem_encodePairs hc with rfl | rfl | rfl | rfl | hplain
    · decide
    · decide
    · decide
    · decide
    · exact not_inWebQuery_of_isPlain hplain

/-- A web URL can still be read when it gets another path. -/
theorem Readable.withPath {u : Url} (h : u.Readable idna) (hweb : u.isWeb = true) (cs : List Char) :
    { u with path := .segments (Path.ofText true cs) }.Readable idna := by
  have hother : hasWebQuery u.scheme = true := by
    have hscheme : isWebScheme u.scheme = true := hweb
    rw [hasWebQuery, hscheme, Bool.or_true]
  refine ⟨h.scheme, ?_, h.query, h.fragment⟩
  cases h.shape with
  | web hweb ha hpath hne hitems =>
      exact .web hweb ha rfl (ofText_ne_nil cs) (Path.kept_of_ofText cs)
  | file hscheme ha hhost hpath hitems =>
      rw [isWeb, hscheme] at hweb
      exact absurd hweb (by decide)
  | other hnot ha hauthority hpath hitems =>
      exact absurd (hnot.symm.trans hother) Bool.false_ne_true
  | alone hnot hhost hpath hitems => exact absurd (hnot.symm.trans hother) Bool.false_ne_true
  | verbatim hnot hhost hpath hstart hchars =>
      exact absurd (hnot.symm.trans hother) Bool.false_ne_true

theorem isWeb_of_https {u : Url} (h : u.scheme = "https") : u.isWeb = true := by
  rw [isWeb, h]
  decide

/-- The URL of an endpoint can be read. -/
theorem readable_endpoint {text : String} {e : Endpoint} (h : Endpoint.parse idna text = .ok e) :
    e.url.Readable idna := by
  obtain ⟨u, items, hu, hscheme, -, hurl⟩ := Endpoint.url_of_parse h
  have hread := (readable_of_parse hu).withPath (isWeb_of_https hscheme)
    (skim (Endpoint.trimSlashes (Path.segmentsText items)))
  rw [hurl]
  exact ⟨hread.scheme, hread.shape.withEnds none none, nofun, nofun⟩

theorem readable_resource {text : String} {e : Endpoint} (h : Endpoint.parse idna text = .ok e)
    (uri : String) : (e.resourceUrl uri).Readable idna := by
  obtain ⟨hscheme, ⟨cs, hpath⟩, -, -⟩ := Endpoint.of_parse h
  rw [Endpoint.resourceUrl, setPath_web hscheme hpath]
  exact (readable_endpoint h).withPath (isWeb_of_https hscheme) _

/-- The URLs that a program can have. -/
inductive Known (idna : Idna) : Url → Prop where
  | parsed {text : String} {u : Url} (h : parse idna text = .ok u) : Known idna u
  | endpoint {text : String} {e : Endpoint} (h : Endpoint.parse idna text = .ok e) :
    Known idna e.url
  | resource {text : String} {e : Endpoint} (h : Endpoint.parse idna text = .ok e) (uri : String) :
      Known idna (e.resourceUrl uri)
  | filtered {u : Url} (h : Known idna u) (q : Query) : Known idna (q.apply u)

theorem Known.readable {u : Url} (h : u.Known idna) : u.Readable idna := by
  induction h with
  | parsed h => exact readable_of_parse h
  | endpoint h => exact readable_endpoint h
  | resource h uri => exact readable_resource h uri
  | filtered h q ih => exact ih.appendQuery q.pairs

end Url

/-! ## Filters -/

namespace Query

variable {idna : Idna}

/-- The filters that a sequence of calls makes, with the pairs that were given, in their order. -/
inductive Built : Query → List (String × String) → Prop where
  | empty : Built empty []
  | collected (pairs : List (String × String)) : Built (ofPairs pairs) pairs
  | added {q : Query} {pairs : List (String × String)} (h : Built q pairs) (name value : String) :
      Built (q.add name value) (pairs ++ [(name, value)])
  | optional {q : Query} {pairs : List (String × String)} (h : Built q pairs) (name : String)
      (value : Option String) :
      Built (q.addOptional name value) (pairs ++ value.toList.map fun v => (name, v))

theorem pairs_foldl (q : Query) (pairs : List (String × String)) :
    (pairs.foldl (fun q (name, value) => q.add name value) q).pairs = q.pairs ++ pairs := by
  induction pairs generalizing q with
  | nil => exact (List.append_nil _).symm
  | cons pair pairs ih =>
      rw [List.foldl_cons, ih]
      exact List.append_assoc q.pairs [pair] pairs

theorem Built.pairs_eq {q : Query} {pairs : List (String × String)} (h : q.Built pairs) :
    q.pairs = pairs := by
  induction h with
  | empty => rfl
  | collected pairs => exact pairs_foldl Query.empty pairs
  | added h name value ih => exact congrArg (· ++ [(name, value)]) ih
  | optional h name value ih =>
      cases value with
      | none => exact ih.trans (List.append_nil _).symm
      | some value => exact congrArg (· ++ [(name, value)]) ih

theorem isEmpty_iff (q : Query) : q.isEmpty = true ↔ q.pairs.filter (!·.2.isEmpty) = [] := by
  rw [isEmpty, List.all_eq_true, List.filter_eq_nil_iff]
  refine forall₂_congr fun pair _ => ?_
  rw [Bool.not_eq_true', Bool.not_eq_false]

/-- The text of a URL stays the same only if there is nothing to send. -/
theorem render_apply_iff (q : Query) (u : Url) :
    (q.apply u).render = u.render ↔ q.isEmpty = true := by
  rw [isEmpty_iff]
  constructor
  · intro h
    by_contra hne
    have hchars : (u.appendQuery q.pairs).renderChars = u.renderChars := String.ofList_inj.1 h
    have hlength := Url.length_appendQuery hne u
    rw [hchars] at hlength
    exact Nat.lt_irrefl _ hlength
  · intro h
    rw [apply, Url.appendQuery_of_nil h]

/-- The pairs of a URL with filters are those it had and the filters' pairs that have a value, in
the order in which they were given; reading the URL's text gives the same pairs. Nothing but the
query changes, and nothing at all if and only if there is nothing to send. -/
theorem apply_appends {q : Query} {pairs : List (String × String)} (hq : q.Built pairs) {u : Url}
    (hu : u.Known idna) :
    (q.apply u).queryPairs = u.queryPairs ++ pairs.filter (!·.2.isEmpty) ∧
      q.apply u = { u with query := (q.apply u).query } ∧
      (∃ v, Url.parse idna (q.apply u).render = .ok v ∧ v.queryPairs = (q.apply u).queryPairs) ∧
      (q.apply u = u ↔ q.isEmpty = true) ∧
      ((q.apply u).render = u.render ↔ q.isEmpty = true) := by
  refine ⟨?_, ?_, ?_, ⟨fun h => ?_, fun h => ?_⟩, render_apply_iff q u⟩
  · rw [← hq.pairs_eq]
    exact Url.queryPairs_appendQuery u q.pairs
  · rw [apply]
    by_cases h : q.pairs.filter (!·.2.isEmpty) = []
    · rw [Url.appendQuery_of_nil h]
    · rw [Url.appendQuery_of_ne_nil h]
  · obtain ⟨v, hv, hquery, -⟩ := (hu.readable.appendQuery q.pairs).parse_render
    exact ⟨v, hv, by rw [Url.queryPairs, hquery]; rfl⟩
  · exact (render_apply_iff q u).1 (congrArg Url.render h)
  · exact Url.appendQuery_of_nil ((isEmpty_iff q).1 h) u

namespace Sample

/-- A URL with a query that ends in an ampersand, and with a fragment. -/
def listing : Url :=
  ⟨"https", "", none, some (.name "hmc"), none, .segments ["api", "cpcs"], some "a=1&", some "top"⟩

/-- Filters of which two have nothing to say. -/
def filters : Query :=
  (((ofPairs [("name", "Ω & π")]).add "status" "").addOptional "type" (some "linux")).addOptional
    "cpc" none

theorem filters_built : filters.Built [("name", "Ω & π"), ("status", ""), ("type", "linux")] :=
  (((Built.collected [("name", "Ω & π")]).added "status" "").optional "type" (some "linux")).optional
    "cpc" none

theorem parse_listing : Url.parse .asciiOnly "https://hmc/api/cpcs?a=1&#top" = .ok listing := by
  decide +kernel

end Sample

theorem apply_appends_filters :
    (Sample.filters.apply Sample.listing).queryPairs =
        [("a", "1"), ("name", "Ω & π"), ("type", "linux")] ∧
      ∃ v, Url.parse .asciiOnly (Sample.filters.apply Sample.listing).render = .ok v ∧
        v.queryPairs = [("a", "1"), ("name", "Ω & π"), ("type", "linux")] := by
  obtain ⟨hpairs, -, ⟨v, hv, hagain⟩, -⟩ :=
    apply_appends Sample.filters_built (.parsed Sample.parse_listing)
  have hold : Sample.listing.queryPairs = [("a", "1")] := by decide +kernel
  rw [hold] at hpairs
  exact ⟨hpairs, v, hv, hagain.trans hpairs⟩

end Query

end HmcClient
