import HmcClient.Json.Record
import HmcClient.Proofs.Json.Text

/-!
# Records that are written and read back

A record is written as an object with each member once. Read back, the object gives every declared
name the value that was written for it, in whatever order the members stand, and each field takes
its own from there (`Record.read_required`, `Record.read_elided`).
-/

namespace HmcClient

/-! ## Members -/

namespace Members

theorem lookup_of_mem {members : Members} (h : (members.map Prod.fst).Nodup) {name : String}
    {v : Json} (hmem : (name, v) ∈ members) : members.lookup name = some v := by
  induction members with
  | nil => cases hmem
  | cons member rest ih =>
      obtain ⟨hnot, hrest⟩ := List.nodup_cons.1 h
      rcases List.mem_cons.1 hmem with rfl | hmem
      · exact List.lookup_cons_self
      · have hne : (name == member.1) = false := by
          refine beq_false_of_ne ?_
          rintro rfl
          exact hnot (List.mem_map.2 ⟨_, hmem, rfl⟩)
        rw [List.lookup_cons, hne]
        exact ih hrest hmem

theorem lookup_of_not_mem {members : Members} {name : String}
    (h : name ∉ members.map Prod.fst) : members.lookup name = none := by
  rw [List.lookup_eq_none_iff]
  intro member hmem
  refine bne_iff_ne.2 ?_
  rintro rfl
  exact h (List.mem_map.2 ⟨_, hmem, rfl⟩)

/-- What a name stands for does not depend on the order of members with a name of their own each. -/
theorem lookup_perm {members others : Members} (hperm : members.Perm others)
    (h : (members.map Prod.fst).Nodup) (name : String) :
    members.lookup name = others.lookup name := by
  cases hlookup : others.lookup name with
  | some v =>
      obtain ⟨before, after, rfl, -⟩ := List.lookup_eq_some_iff.1 hlookup
      exact lookup_of_mem h (hperm.mem_iff.2 (List.mem_append_right _ (List.mem_cons_self ..)))
  | none =>
      rw [List.lookup_eq_none_iff] at hlookup ⊢
      exact fun member hmem => hlookup member (hperm.mem_iff.1 hmem)

/-- Adding a member of a new name. -/
theorem insert_perm {members : Members} {name : String} (h : name ∉ members.map Prod.fst)
    (v : Json) : (members.insert name v).Perm ((name, v) :: members) := by
  induction members with
  | nil => exact .refl _
  | cons member rest ih =>
      obtain ⟨n, w⟩ := member
      rw [List.map_cons, List.mem_cons, not_or] at h
      rw [insert]
      split
      · exact .refl _
      · rw [if_neg h.1]
        exact ((ih h.2).cons (n, w)).trans (.swap ..)

/-- Members with a name of their own each are all kept. -/
theorem ofList_perm {entries : List (String × Json)} (h : (entries.map Prod.fst).Nodup) :
    (ofList entries).Perm entries := by
  have added {members : Members} (h : ((members ++ entries).map Prod.fst).Nodup) :
      (entries.foldl (fun members entry => members.insert entry.1 entry.2) members).Perm
        (members ++ entries) := by
    induction entries generalizing members with
    | nil => rw [List.append_nil]; exact .refl _
    | cons entry rest ih =>
        obtain ⟨name, v⟩ := entry
        have hmiddle : (members ++ (name, v) :: rest).Perm ((name, v) :: (members ++ rest)) :=
          List.perm_middle
        have hnot : name ∉ members.map Prod.fst := by
          have hnew := (List.nodup_cons.1 ((hmiddle.map Prod.fst).nodup_iff.1 h)).1
          rw [List.map_append] at hnew
          exact fun hmem => hnew (List.mem_append_left _ hmem)
        have hstep : (members.insert name v ++ rest).Perm (members ++ (name, v) :: rest) :=
          ((insert_perm hnot v).append_right rest).trans hmiddle.symm
        exact (ih (List.nodup_cons.1 ‹_›).2 ((hstep.map Prod.fst).nodup_iff.2 h)).trans hstep
  exact added h

end Members

theorem Json.mem_memberOf {γ : Type} {name : String} {f : γ → Json} {o : Option γ}
    {member : String × Json} (h : member ∈ memberOf name f o) :
    ∃ a, o = some a ∧ member = (name, f a) := by
  cases o with
  | none => cases h
  | some a => exact ⟨a, rfl, List.mem_singleton.1 h⟩

/-! ## Values -/

namespace Codec

theorem decode_text (s : String) (depth : Nat) :
    text.decode depth (.ofValue (text.encode s)) = some s := rfl

theorem decode_integer {low high n : Int} (h : low ≤ n ∧ n ≤ high) (depth : Nat) :
    (integer low high).decode depth (.ofValue ((integer low high).encode n)) = some n := if_pos h

theorem decode_nat {high n : Nat} (h : n ≤ high) (depth : Nat) :
    (nat high).decode depth (.ofValue ((nat high).encode n)) = some n := by
  show ((integer 0 high).decode depth (.ofValue ((integer 0 high).encode n))).map Int.toNat = _
  rw [decode_integer ⟨Int.natCast_nonneg n, Int.ofNat_le.2 h⟩]
  rfl

end Codec

/-! ## Objects -/

namespace Record

/-- What an object gives for the declared names is what stands in it. -/
theorem declared?_ofMembers (names : List String) {members : List (String × Json)}
    (h : (members.map Prod.fst).Nodup) : ∃ found,
    declared? names (Document.ofMembers members) = some found ∧
      ∀ name ∈ names, found.lookup name = (members.lookup name).map Document.ofValue := by
  induction members with
  | nil => exact ⟨[], rfl, fun _ _ => rfl⟩
  | cons member rest ih =>
      obtain ⟨n, v⟩ := member
      obtain ⟨hnot, hrest⟩ := List.nodup_cons.1 h
      obtain ⟨found, hfound, hlookup⟩ := ih hrest
      have hdeclared : declared? names (Document.ofMembers ((n, v) :: rest)) =
          if names.contains n then
            if (found.lookup n).isSome then none else some ((n, Document.ofValue v) :: found)
          else some found := by
        rw [Document.ofMembers, declared?, hfound]
        rfl
      by_cases hn : n ∈ names
      · have hfree : found.lookup n = none := by
          rw [hlookup n hn, Members.lookup_of_not_mem hnot]
          rfl
        rw [hdeclared, if_pos (List.contains_iff_mem.2 hn), hfree]
        refine ⟨_, rfl, fun name hname => ?_⟩
        rw [List.lookup_cons, List.lookup_cons]
        split
        · rfl
        · exact hlookup name hname
      · rw [hdeclared, if_neg fun h => hn (List.contains_iff_mem.1 h)]
        refine ⟨_, rfl, fun name hname => ?_⟩
        have hne : (name == n) = false := beq_false_of_ne fun h => hn (h ▸ hname)
        rw [List.lookup_cons, hne]
        exact hlookup name hname

/-! ## Fields -/

variable {R α β : Type}

/-- A record is read from an object by its fields, each given what stands under its name. -/
theorem decode_object (r : Record R R) {members : List (String × Json)}
    (h : (members.map Prod.fst).Nodup) (depth : Nat) : ∃ given,
    r.codec.decode (depth + 1) (.ofValue (.object members)) = r.read given ∧
      ∀ name ∈ r.names, given.field name = (members.lookup name).map Document.ofValue := by
  obtain ⟨found, hfound, hlookup⟩ := declared?_ofMembers r.names h
  refine ⟨⟨depth, fun name => found.lookup name, []⟩, ?_, hlookup⟩
  show (do r.read (← ofObject? r.names depth (Document.ofMembers members))) = _
  rw [ofObject?, hfound]
  rfl

/-- A required field takes the value that was written for it. -/
theorem read_required {r : Record R (β → α)} {name : String} {c : Codec β} {get : R → β}
    {given : Given} {f : β → α} {b : β} (hread : r.read given = some f)
    (hgiven : given.field name = some (.ofValue (c.encode b)))
    (hc : c.decode given.depth (.ofValue (c.encode b)) = some b) :
    (r.required name c get).read given = some (f b) := by
  show (do let f ← r.read given; return f (← (do c.decode given.depth (← given.field name)))) = _
  rw [hread, hgiven]
  show (do return f (← c.decode given.depth (.ofValue (c.encode b)))) = _
  rw [hc]
  rfl

/-- A field that is left out if it is none takes the value that was written for it, if any was. -/
theorem read_elided {r : Record R (Option β → α)} {name : String} {c : Codec β}
    {get : R → Option β} {given : Given} {f : Option β → α} {b : Option β}
    (hread : r.read given = some f)
    (hgiven : given.field name = b.map fun b => .ofValue (c.encode b))
    (hc : ∀ b' ∈ b, c.option.decode given.depth (.ofValue (c.encode b')) = some (some b')) :
    (r.elided name c get).read given = some (f b) := by
  show (do let f ← r.read given; return f (← readOptional name c given)) = _
  rw [hread, readOptional, hgiven]
  cases b with
  | none => rfl
  | some b =>
      show (do return f (← c.option.decode given.depth (.ofValue (c.encode b)))) = _
      rw [hc b rfl]
      rfl

end Record

end HmcClient
