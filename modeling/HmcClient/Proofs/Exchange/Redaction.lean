import HmcClient.Exchange.Redaction
import HmcClient.Json.Document

/-!
# What redaction does not look at

A document can be hidden before or after it is given a value, and the outcome is the same. Hidden
before means that in the tree, wherever a member has a secret name, the mark stands in place of
whatever the member held. So a value that is shown depends on the document only through that tree,
and two documents that differ in nothing but their secrets are shown alike.

Objects need one lemma. Their members are sorted and a later one replaces an earlier one of the same
name, and hiding does not interfere with either because it goes by the name.
-/

namespace HmcClient

namespace Redaction

/-- What is shown for a member. -/
def shown (name : String) (v : Json) : Json := if isSecret name then .string mark else redact v

theorem redactMembers_cons (name : String) (v : Json) (rest : List (String × Json)) :
    redactMembers ((name, v) :: rest) = (name, shown name v) :: redactMembers rest := rfl

theorem redactMembers_insert (name : String) (v : Json) (members : Members) :
    redactMembers (members.insert name v) =
      Members.insert name (shown name v) (redactMembers members) := by
  induction members with
  | nil => rfl
  | cons member rest ih =>
      obtain ⟨n, w⟩ := member
      rw [redactMembers_cons, Members.insert, Members.insert]
      split
      · rfl
      · split
        · rfl
        · rw [redactMembers_cons, ih]

theorem redactMembers_ofList (entries : List (String × Json)) :
    redactMembers (Members.ofList entries) = Members.ofList (redactMembers entries) := by
  have hfold : ∀ (entries : List (String × Json)) (members : Members),
      redactMembers (entries.foldl (fun ms e => Members.insert e.1 e.2 ms) members) =
        (redactMembers entries).foldl (fun ms e => Members.insert e.1 e.2 ms)
          (redactMembers members) := by
    intro entries
    induction entries with
    | nil => exact fun _ => rfl
    | cons entry rest ih =>
        intro members
        rw [List.foldl_cons, ih, redactMembers_insert]
        rfl
  exact hfold entries []

end Redaction

namespace Document

open Redaction

mutual

/-- The document with the mark in place of its secrets. -/
def conceal : Document → Document
  | array items => array (concealItems items)
  | object members => object (concealMembers members)
  | d => d

def concealItems : List Document → List Document
  | [] => []
  | d :: rest => conceal d :: concealItems rest

def concealMembers : List (Option String × Document) → List (Option String × Document)
  | [] => []
  | (name, d) :: rest =>
    (name, if name.any isSecret then string (some mark) else conceal d) :: concealMembers rest

end

theorem concealMembers_append (front rest : List (Option String × Document)) :
    concealMembers (front ++ rest) = concealMembers front ++ concealMembers rest := by
  induction front with
  | nil => rfl
  | cons member front ih => exact congrArg (_ :: ·) ih

theorem concealMembers_secret {name : String} (h : isSecret name = true) (d : Document)
    (rest : List (Option String × Document)) :
    concealMembers ((some name, d) :: rest) =
      (some name, string (some mark)) :: concealMembers rest := by
  rw [concealMembers, if_pos (by simpa using h)]

mutual

/-- Hiding the secrets of the tree and then taking its value is taking its value and then hiding
the secrets. -/
theorem value?_conceal {depth : Nat} {d : Document} {v : Json} (h : d.value? depth = some v) :
    d.conceal.value? depth = some (redact v) := by
  match d with
  | null | bool _ =>
      rw [value?, Option.some.injEq] at h
      subst h
      rfl
  | number n =>
      rw [value?, Option.map_eq_some_iff] at h
      obtain ⟨n, rfl, rfl⟩ := h
      rfl
  | string s =>
      rw [value?, Option.map_eq_some_iff] at h
      obtain ⟨s, rfl, rfl⟩ := h
      rfl
  | array items =>
      rw [value?] at h
      rw [conceal, value?]
      split at h
      · cases h
      · next hdepth =>
          obtain ⟨vs, hvs, rfl⟩ := Option.map_eq_some_iff.1 h
          rw [if_neg hdepth, values?_concealItems hvs]
          rfl
  | object members =>
      rw [value?] at h
      rw [conceal, value?]
      split at h
      · cases h
      · next hdepth =>
          obtain ⟨entries, hentries, rfl⟩ := Option.map_eq_some_iff.1 h
          rw [if_neg hdepth, memberValues?_concealMembers hentries, Option.map_some, Json.ofEntries,
            Json.ofEntries, redact, redactMembers_ofList]

theorem values?_concealItems {depth : Nat} {items : List Document} {vs : List Json}
    (h : values? depth items = some vs) :
    values? depth (concealItems items) = some (redactItems vs) := by
  match items with
  | [] =>
      rw [values?, Option.some.injEq] at h
      subst h
      rfl
  | d :: rest =>
      rw [values?] at h
      obtain ⟨v, hv, h⟩ := Option.bind_eq_some_iff.1 h
      obtain ⟨vs, hvs, h⟩ := Option.bind_eq_some_iff.1 h
      obtain rfl := Option.some.inj h
      rw [concealItems, values?, value?_conceal hv, values?_concealItems hvs]
      rfl

theorem memberValues?_concealMembers {depth : Nat} {members : List (Option String × Document)}
    {entries : List (String × Json)} (h : memberValues? depth members = some entries) :
    memberValues? depth (concealMembers members) = some (redactMembers entries) := by
  match members with
  | [] =>
      rw [memberValues?, Option.some.injEq] at h
      subst h
      rfl
  | (name, d) :: rest =>
      rw [memberValues?] at h
      obtain ⟨name, rfl, hrest⟩ := Option.bind_eq_some_iff.1 h
      obtain ⟨v, hv, h⟩ := Option.bind_eq_some_iff.1 hrest
      obtain ⟨entries, hentries, h⟩ := Option.bind_eq_some_iff.1 h
      obtain rfl := Option.some.inj h
      rw [concealMembers, memberValues?, memberValues?_concealMembers hentries, redactMembers_cons,
        shown, Option.any_some]
      -- The value of a secret is not looked at: the mark stands in its place on both sides.
      split
      · rfl
      · rw [value?_conceal hv]
        rfl

end

end Document

end HmcClient
