import HmcClient.Exchange.Endpoint
import HmcClient.Proofs.Url.Path
import Mathlib.Data.List.Induction

/-!
# Resources of an endpoint

An endpoint that was read has a secure URL whose path is a list of segments. The URL of a resource
has its own path and is the endpoint's in everything else.

That path is what the resource's own segments make on top of the base path. So it ends in the last
of them, as long as that one is an ordinary segment, and it lies below the base path as long as they
never drop more segments than they have added. Nothing else holds them back: a double dot drops
segments of the base path as well.
-/

namespace HmcClient

namespace Url

theorem resolve_append (kept : List String) (items : List (List Char)) {last : List Char}
    (h : Path.meaning last = .ordinary) :
    ∃ before, Path.resolve kept (items ++ [last]) = before ++ [Path.encodeSegment last] := by
  induction items generalizing kept with
  | nil => exact ⟨kept.reverse, by simp [Path.resolve, h]⟩
  | cons segment items ih =>
      cases hitems : items ++ [last] with
      | nil => simp at hitems
      | cons next rest =>
          rw [List.cons_append, hitems, Path.resolve]
          · rw [hitems] at ih
            cases Path.meaning segment with
            | single => exact ih kept
            | double => exact ih _
            | ordinary => exact ih _
          · simp

/-- The path of a text that ends in a slash and an ordinary segment ends in that segment. -/
theorem ofText_append {cs last : List Char} (hlast : Path.meaning last = .ordinary)
    (hplain : ∀ c ∈ last, Path.isSeparator true c = false) :
    ∃ before, Path.ofText true (cs ++ '/' :: last) = before ++ [Path.encodeSegment last] := by
  simp only [Path.ofText, Bool.not_true, Bool.false_and, Bool.false_eq_true, if_false]
  cases cs with
  | nil =>
      rw [List.nil_append, Path.dropLeading, if_pos (by decide), Host.splitOn_of_none hplain]
      exact resolve_append [] [] hlast
  | cons c cs =>
      rw [List.cons_append, Path.dropLeading]
      split
      · rw [Host.splitOn_append cs last (by decide), Host.splitOn_of_none hplain]
        exact resolve_append [] _ hlast
      · rw [← List.cons_append, Host.splitOn_append (c :: cs) last (by decide),
          Host.splitOn_of_none hplain]
        exact resolve_append [] _ hlast

theorem setPath_web {u : Url} {items : List String} (hscheme : u.scheme = "https")
    (hpath : u.path = .segments items) (text : String) :
    u.setPath text = { u with path := .segments (Path.ofText true (skim text.toList)) } := by
  have hweb : u.isWeb = true := by
    rw [isWeb, hscheme]
    decide
  rw [setPath, hpath]
  dsimp only
  rw [if_neg (by rw [hscheme]; decide), hweb]

end Url

namespace Endpoint

/-- The URL of an endpoint is the one that was read, without the slashes at the end of its path and
with neither query nor fragment. -/
theorem url_of_parse {idna : Idna} {text : String} {e : Endpoint} (h : parse idna text = .ok e) :
    ∃ u items, Url.parse idna text = .ok u ∧ u.scheme = "https" ∧ u.path = .segments items ∧
      e.url = { u with
        path := .segments (Url.Path.ofText true
          (Url.skim (trimSlashes (Url.Path.segmentsText items))))
        query := none
        fragment := none } := by
  unfold parse at h
  split at h
  · cases h
  next u hu =>
    split at h
    · cases h
    next hscheme =>
      unfold ofUrl at h
      split at h
      · cases h
      split at h
      · cases h
      next hverbatim =>
        obtain rfl := Except.ok.inj h
        cases hpath : u.path with
        | verbatim text => simp [Url.isVerbatim, hpath] at hverbatim
        | segments items =>
            simp only [ne_eq, Decidable.not_not] at hscheme
            rw [Url.setPath_web hscheme hpath, String.toList_ofList]
            exact ⟨u, items, hu, hscheme, hpath, rfl⟩

theorem of_parse {idna : Idna} {text : String} {e : Endpoint} (h : parse idna text = .ok e) :
    e.url.scheme = "https" ∧ (∃ cs, e.url.path = .segments (Url.Path.ofText true cs)) ∧
      e.url.query = none ∧ e.url.fragment = none := by
  obtain ⟨u, items, -, hscheme, -, hurl⟩ := url_of_parse h
  rw [hurl]
  exact ⟨hscheme, ⟨_, rfl⟩, rfl, rfl⟩

/-- The URL of a resource ends in the last segment of the resource's path. -/
theorem resourceUrl_path {idna : Idna} {text : String} {e : Endpoint} (h : parse idna text = .ok e)
    {uri : String}
    {last : List Char} (huri : uri.toList = '/' :: last)
    (hlast : Url.Path.meaning last = .ordinary)
    (hplain : ∀ c ∈ last, Url.Path.isSeparator true c = false)
    (hkept : Url.skim last = last) :
    ∃ before, (e.resourceUrl uri).path = .segments (before ++ [Url.Path.encodeSegment last]) := by
  obtain ⟨hscheme, ⟨cs, hpath⟩, -, -⟩ := of_parse h
  obtain ⟨base, hbase⟩ : ∃ base, resourcePath e.basePathChars uri.toList = base ++ '/' :: last := by
    unfold resourcePath
    split
    · exact ⟨[], huri⟩
    · refine ⟨e.basePathChars, ?_⟩
      have hdrop : last.dropWhile (· == '/') = last := by
        cases last with
        | nil => rfl
        | cons c rest =>
            have := hplain c List.mem_cons_self
            simp only [Url.Path.isSeparator, Bool.or_eq_false_iff] at this
            rw [List.dropWhile_cons_of_neg (by rw [this.1]; exact Bool.false_ne_true)]
      rw [huri, List.dropWhile_cons_of_pos (by decide), hdrop]
  have hskim : Url.skim (base ++ '/' :: last) = Url.skim base ++ '/' :: last := by
    rw [Url.skim, List.filter_append, List.filter_cons_of_pos (by decide)]
    exact congrArg (fun rest => Url.skim base ++ '/' :: rest) hkept
  obtain ⟨before, hbefore⟩ : ∃ before, Url.Path.ofText true (Url.skim base ++ '/' :: last) =
      before ++ [Url.Path.encodeSegment last] := Url.ofText_append hlast hplain
  refine ⟨before, ?_⟩
  rw [resourceUrl, Url.setPath_web hscheme hpath, String.toList_ofList, hbase, hskim, hbefore]

/-! ## Below the base path -/

open Url.Path (Kept Stays segmentsText meaning isSeparator)

theorem trimSlashes_slash (cs : List Char) : trimSlashes (cs ++ ['/']) = trimSlashes cs := by
  rw [trimSlashes, Blank.dropEndWhile, List.reverse_append]
  rfl

theorem trimSlashes_of_ne {c : Char} (h : c ≠ '/') (cs : List Char) :
    trimSlashes (cs ++ [c]) = cs ++ [c] := by
  rw [trimSlashes, Blank.dropEndWhile, List.reverse_append, List.reverse_singleton,
    List.singleton_append, List.dropWhile_cons_of_neg (by simpa using h), List.reverse_cons,
    List.reverse_reverse]

/-- A path without the slashes at its end is a path. -/
theorem trimSlashes_segmentsText {items : List String} (h : ∀ s ∈ items, Kept s) :
    ∃ base, (∀ s ∈ base, Kept s) ∧ trimSlashes (segmentsText items) = segmentsText base := by
  induction items using List.reverseRecOn with
  | nil => exact ⟨[], nofun, rfl⟩
  | append_singleton items last ih =>
      have htext := Url.Path.segmentsText_concat items last
      rcases List.eq_nil_or_concat last.toList with hnil | ⟨cs, c, hconcat⟩
      · obtain ⟨base, hbase, htrim⟩ := ih fun s hs => h s (List.mem_append_left _ hs)
        refine ⟨base, hbase, ?_⟩
        rw [htext, hnil, trimSlashes_slash, htrim]
      · rw [List.concat_eq_append] at hconcat
        refine ⟨items ++ [last], h, ?_⟩
        have hc : c ≠ '/' := by
          rintro rfl
          have hwhole := (h last (List.mem_append_right _ (List.mem_singleton_self last))).whole '/'
            (by rw [hconcat]; exact List.mem_append_right _ (List.mem_singleton_self _))
          cases hwhole
        rw [htext, hconcat, ← List.cons_append, ← List.append_assoc, trimSlashes_of_ne hc]

/-- What a resource names below the base path; `none` if it is the base path. -/
def below? (base uri : List Char) : Option (List Char) :=
  if base = [] then some (uri.dropWhile (· == '/'))
  else if uri = base then none
  else if (base ++ ['/']).isPrefixOf uri then some (uri.drop (base.length + 1))
  else some (uri.dropWhile (· == '/'))

theorem resourcePath_eq (base uri : List Char) : resourcePath base uri =
    match below? base uri with
    | none => base
    | some tail => base ++ '/' :: tail := by
  rw [resourcePath, below?]
  by_cases hbase : base = []
  · rw [if_pos hbase, hbase]
    rfl
  rw [if_neg hbase, List.isEmpty_eq_false_iff.2 hbase]
  by_cases huri : uri = base
  · rw [if_pos huri, huri, beq_self_eq_true]
    rfl
  rw [if_neg huri, beq_false_of_ne huri, Bool.not_false, Bool.true_and, Bool.false_or]
  split
  next hprefix =>
    obtain ⟨tail, rfl⟩ := List.isPrefixOf_iff_prefix.1 hprefix
    have hdrop : (base ++ ['/'] ++ tail).drop (base.length + 1) = tail :=
      List.drop_left' (by rw [List.length_append, List.length_singleton])
    rw [hdrop, List.append_assoc]
    rfl
  · rfl

/-- Whether the segments that a resource names below the base path stay below it. -/
def StaysBelow (e : Endpoint) (uri : String) : Prop :=
  e.basePathChars = [] ∨ ∀ tail ∈ below? e.basePathChars uri.toList,
    Stays 0 (Host.splitOn (isSeparator true) (Url.skim tail))

instance (e : Endpoint) (uri : String) : Decidable (e.StaysBelow uri) :=
  inferInstanceAs (Decidable (_ ∨ ∀ tail ∈ below? e.basePathChars uri.toList,
    Stays 0 (Host.splitOn (isSeparator true) (Url.skim tail))))

/-- Whether a path is the base path or lies below it. -/
def Contains (e : Endpoint) (path : Url.Path) : Prop :=
  path.render = e.basePathChars ∨ e.basePathChars ++ ['/'] <+: path.render

/-- The segments of the path that is read from the base path with something below it. -/
def segmentsOn (base : List String) : Option (List Char) → List String
  | none => base
  | some tail => Url.Path.resolve base.reverse (Host.splitOn (isSeparator true) (Url.skim tail))

/-- The path of a resource: what its own segments make on top of the base path. -/
theorem resourceUrl_eq {idna : Idna} {text : String} {e : Endpoint} (h : parse idna text = .ok e)
    (uri : String) :
    ∃ base : List String, (∀ s ∈ base, Kept s) ∧ e.basePathChars = segmentsText base ∧
      e.resourceUrl uri = { e.url with
        path := .segments (segmentsOn base (below? e.basePathChars uri.toList)) } := by
  obtain ⟨hscheme, ⟨cs, hpath⟩, -, -⟩ := of_parse h
  obtain ⟨base, hbase, htrim⟩ := trimSlashes_segmentsText (Url.Path.kept_of_ofText cs)
  have hchars : e.basePathChars = segmentsText base := by
    rw [basePathChars, hpath]
    exact htrim
  refine ⟨base, hbase, hchars, ?_⟩
  rw [resourceUrl, Url.setPath_web hscheme hpath, String.toList_ofList, resourcePath_eq, hchars]
  cases hbelow : below? (segmentsText base) uri.toList with
  | none =>
      have hne : base ≠ [] := by
        rintro rfl
        cases hbelow
      dsimp only
      rw [Url.Path.skim_segmentsText_self hbase, Url.Path.ofText_segmentsText hbase hne]
      rfl
  | some tail =>
      have hskim : Url.skim ('/' :: tail) = '/' :: Url.skim tail := List.filter_cons_of_pos rfl
      dsimp only
      rw [Url.Path.skim_segmentsText hbase, hskim, Url.Path.ofText_append hbase]
      rfl

theorem skim_append_slash (cs tail : List Char) :
    Url.skim (cs ++ '/' :: tail) = Url.skim cs ++ '/' :: Url.skim tail := by
  rw [Url.skim, List.filter_append, List.filter_cons_of_pos rfl]
  rfl

theorem mem_segments_of_dropWhile {cs segment : List Char}
    (h : segment ∈ Host.splitOn (isSeparator true) (Url.skim (cs.dropWhile (· == '/')))) :
    segment ∈ Host.splitOn (isSeparator true) (Url.skim cs) := by
  induction cs with
  | nil => exact h
  | cons c cs ih =>
      by_cases hc : c = '/'
      · subst hc
        have hskim : Url.skim ('/' :: cs) = '/' :: Url.skim cs := skim_append_slash [] cs
        rw [List.dropWhile_cons_of_pos (by rfl)] at h
        rw [hskim, Host.splitOn, if_pos (show isSeparator true '/' = true from rfl)]
        exact List.mem_cons_of_mem _ (ih h)
      · rwa [List.dropWhile_cons_of_neg (by simpa using hc)] at h

/-- The segments of what a resource names are segments of the resource's text. -/
theorem mem_segments_of_below {base uri tail : List Char} (h : below? base uri = some tail)
    {segment : List Char}
    (hsegment : segment ∈ Host.splitOn (isSeparator true) (Url.skim tail)) :
    segment ∈ Host.splitOn (isSeparator true) (Url.skim uri) := by
  rw [below?] at h
  split at h
  · obtain rfl := Option.some.inj h
    exact mem_segments_of_dropWhile hsegment
  split at h
  · cases h
  split at h
  next hprefix =>
    obtain ⟨rest, rfl⟩ := List.isPrefixOf_iff_prefix.1 hprefix
    have hdrop : (base ++ ['/'] ++ rest).drop (base.length + 1) = rest :=
      List.drop_left' (by rw [List.length_append, List.length_singleton])
    obtain rfl : rest = tail := hdrop.symm.trans (Option.some.inj h)
    rw [List.append_assoc, List.singleton_append, skim_append_slash, Host.splitOn_append _ _ rfl]
    exact List.mem_append_right _ hsegment
  · obtain rfl := Option.some.inj h
    exact mem_segments_of_dropWhile hsegment

theorem staysBelow_of_ne_double (e : Endpoint) {uri : String}
    (h : ∀ segment ∈ Host.splitOn (isSeparator true) (Url.skim uri.toList),
      meaning segment ≠ .double) : e.StaysBelow uri :=
  .inr fun _ htail => Url.Path.stays_of_ne_double
    (fun segment hsegment => h segment (mem_segments_of_below htail hsegment)) 0

theorem kept_of_segmentsOn {base : List String} (hbase : ∀ s ∈ base, Kept s)
    (below : Option (List Char)) : ∀ s ∈ segmentsOn base below, Kept s := by
  cases below with
  | none => exact hbase
  | some tail =>
      exact Url.Path.kept_of_resolve (fun s hs => hbase s (List.mem_reverse.1 hs))
        fun segment hsegment c hc => Host.mem_splitOn hsegment hc

theorem contains_iff {e : Endpoint} {base items : List String} (hbase : ∀ s ∈ base, Kept s)
    (hchars : e.basePathChars = segmentsText base) (hitems : ∀ s ∈ items, Kept s) :
    e.Contains (.segments items) ↔ base <+: items := by
  rw [Contains, hchars]
  exact (Url.Path.prefix_iff_segmentsText hbase hitems).symm

/-- Segments that stay below the base path leave its segments in place. -/
theorem prefix_of_staysBelow {e : Endpoint} {base : List String}
    (hchars : e.basePathChars = segmentsText base) {uri : String} (h : e.StaysBelow uri) :
    base <+: segmentsOn base (below? e.basePathChars uri.toList) := by
  rcases h with hroot | hstays
  · cases base with
    | nil => exact List.nil_prefix
    | cons s base => cases hchars.symm.trans hroot
  cases hbelow : below? e.basePathChars uri.toList with
  | none => exact List.prefix_refl base
  | some tail =>
      exact Url.Path.resolve_of_stays base [] (Nat.le_refl 0) (hstays tail hbelow)

/-- The URL of a resource is that of the endpoint in everything but its path, without a query and a
fragment. Its path is made of the resource's own segments, resolved on top of the base path. It is
the base path or lies below it if and only if what comes of that starts with the segments of the base
path. That is so if the resource's segments never drop more than they have added, for instance if
none of them is a double dot, or if the endpoint is the root of its host. -/
theorem resourceUrl_confined {idna : Idna} {text : String} {e : Endpoint}
    (h : parse idna text = .ok e)
    (uri : String) :
    (e.resourceUrl uri).scheme = e.url.scheme ∧ (e.resourceUrl uri).host = e.url.host ∧
      (e.resourceUrl uri).port = e.url.port ∧
      (e.resourceUrl uri).username = e.url.username ∧
      (e.resourceUrl uri).password = e.url.password ∧
      (e.resourceUrl uri).query = none ∧ (e.resourceUrl uri).fragment = none ∧
      (∃ base : List String, (∀ s ∈ base, Kept s) ∧ e.basePathChars = segmentsText base ∧
        (e.resourceUrl uri).path =
          .segments (segmentsOn base (below? e.basePathChars uri.toList)) ∧
        (e.Contains (e.resourceUrl uri).path ↔
          base <+: segmentsOn base (below? e.basePathChars uri.toList))) ∧
      (e.StaysBelow uri → e.Contains (e.resourceUrl uri).path) ∧
      ((∀ segment ∈ Host.splitOn (isSeparator true) (Url.skim uri.toList),
        meaning segment ≠ .double) → e.Contains (e.resourceUrl uri).path) := by
  obtain ⟨-, -, hquery, hfragment⟩ := of_parse h
  obtain ⟨base, hbase, hchars, hurl⟩ := resourceUrl_eq h uri
  have hiff : e.Contains (e.resourceUrl uri).path ↔
      base <+: segmentsOn base (below? e.basePathChars uri.toList) := by
    rw [hurl]
    exact contains_iff hbase hchars (kept_of_segmentsOn hbase _)
  have hcontains : e.StaysBelow uri → e.Contains (e.resourceUrl uri).path :=
    fun hstays => hiff.2 (prefix_of_staysBelow hchars hstays)
  have hplain : (∀ segment ∈ Host.splitOn (isSeparator true) (Url.skim uri.toList),
      meaning segment ≠ .double) → e.Contains (e.resourceUrl uri).path :=
    fun hne => hcontains (e.staysBelow_of_ne_double hne)
  rw [hurl] at hiff hcontains hplain ⊢
  exact ⟨rfl, rfl, rfl, rfl, rfl, hquery, hfragment, ⟨base, hbase, hchars, rfl, hiff⟩, hcontains,
    hplain⟩

namespace Sample

/-- The endpoint `https://hmc/api`. -/
def apiEndpoint : Endpoint :=
  ⟨⟨"https", "", none, some (.name "hmc"), none, .segments ["api"], none, none⟩⟩

theorem parse_apiEndpoint : Endpoint.parse .asciiOnly "https://hmc/api" = .ok apiEndpoint := rfl

end Sample

/-- Double dots may be encoded and drop what the resource's own path has added. -/
theorem resourceUrl_confined_dots :
    parse .asciiOnly "https://hmc/api" = .ok Sample.apiEndpoint ∧
      Sample.apiEndpoint.StaysBelow "/api/cpcs/%2E%2e/partitions" ∧
      Sample.apiEndpoint.Contains
        (Sample.apiEndpoint.resourceUrl "/api/cpcs/%2E%2e/partitions").path := by
  have hstays : Sample.apiEndpoint.StaysBelow "/api/cpcs/%2E%2e/partitions" := by
    decide +kernel
  have h := resourceUrl_confined Sample.parse_apiEndpoint "/api/cpcs/%2E%2e/partitions"
  exact ⟨Sample.parse_apiEndpoint, hstays, h.2.2.2.2.2.2.2.2.1 hstays⟩

/-- A resource that starts like one below the base path, and lies elsewhere. -/
theorem resourceUrl_escapes :
    parse .asciiOnly "https://hmc/api" = .ok Sample.apiEndpoint ∧
      (Sample.apiEndpoint.resourceUrl "/api/../x").path = .segments ["x"] ∧
      ¬ Sample.apiEndpoint.Contains (Sample.apiEndpoint.resourceUrl "/api/../x").path := by
  have hpath : (Sample.apiEndpoint.resourceUrl "/api/../x").path = .segments ["x"] := by
    decide +kernel
  refine ⟨Sample.parse_apiEndpoint, hpath, ?_⟩
  rw [hpath]
  rintro (h | h)
  · exact absurd h (by decide)
  · exact absurd h (by decide)

end Endpoint

theorem Request.endsWith_segments (before : List String) (last : String) :
    Request.endsWith (Url.Path.segments (before ++ [last])).render ('/' :: last.toList) = true := by
  simp only [Url.Path.render, Url.Path.segmentsText, List.flatMap_append, Request.endsWith,
    List.flatMap_cons, List.flatMap_nil, List.append_nil, List.reverse_append]
  simp

end HmcClient
